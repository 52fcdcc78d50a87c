/-
# A script in two parts

A script that is cut after a line feed can be processed part by part: the report on the whole lists the
lines of the first part and then those of the second, with their numbers moved on, and nothing that is
found in one part changes what is found in the other. The converted script is the two converted parts,
and the summary of the whole is the sum of the two summaries (`Summary.IsSum`): what is counted adds up,
the highest risk is the greater of the two. What a summary counts for the single categories is together
what it counts in all (`total_changesByCategory`).
-/

import ScriptUpgrade.Proofs.LineBreaks

namespace ScriptUpgrade
namespace Script

/-! ### Lines -/

/-- Only the first of some lines sees a character in front. -/
theorem addFront_append (c : Char) {lines : List (Text × Ending)} (h : lines ≠ [])
    (more : List (Text × Ending)) : addFront c (lines ++ more) = addFront c lines ++ more := by
  obtain ⟨⟨line, ending⟩, rest, rfl⟩ := List.exists_cons_of_ne_nil h
  by_cases hc : c = '\n'
  · simp [addFront, hc]
  · by_cases hreturn : line = [] ∧ ending = .lf ∧ c = '\r'
    · obtain ⟨rfl, rfl, rfl⟩ := hreturn
      rfl
    · have hline : line = [] → ending = .lf → c ≠ '\r' := fun hnil hlf hr =>
        hreturn ⟨hnil, hlf, hr⟩
      rw [List.cons_append, addFront_cons _ hc hline, addFront_cons _ hc hline, List.cons_append]

theorem addFront_ne_nil (c : Char) (lines : List (Text × Ending)) : addFront c lines ≠ [] := by
  intro hnil
  have hjoin := join_addFront c lines
  rw [hnil] at hjoin
  cases hjoin

/-- A text in front of some lines has nothing to do with the lines behind them. -/
theorem foldr_addFront_append (text : Text) {lines : List (Text × Ending)} (h : lines ≠ [])
    (more : List (Text × Ending)) :
    text.foldr addFront (lines ++ more) = text.foldr addFront lines ++ more := by
  have hboth : text.foldr addFront (lines ++ more) = text.foldr addFront lines ++ more ∧
      text.foldr addFront lines ≠ [] := by
    induction text with
    | nil => exact ⟨rfl, h⟩
    | cons c text ih =>
      rw [List.foldr_cons, List.foldr_cons, ih.1]
      exact ⟨addFront_append c ih.2 more, addFront_ne_nil c _⟩
  exact hboth.1

/-- A place where a text can be cut between two lines: its start, or behind a line feed. -/
def EndsLine (text : Text) : Prop :=
  text = [] ∨ text.getLast? = some '\n'

/-- **A text that is cut between two lines has the lines of its two parts.** -/
theorem split_append {front : Text} (h : EndsLine front) (back : Text) :
    split (front ++ back) = split front ++ split back := by
  rcases h with rfl | hlast
  · rfl
  · obtain ⟨text, rfl⟩ := List.getLast?_eq_some_iff.1 hlast
    simp only [split, List.foldr_append]
    have hne : [(([] : Text), Ending.lf)] ≠ [] := by simp
    exact foldr_addFront_append text hne (split back)

/-! ### Reports -/

/-- The report on a line that stands further down. -/
def LineReport.movedBy (count : Nat) (report : LineReport) : LineReport :=
  { report with number := report.number + count }

theorem processFrom_append (settings : Settings) (number : Nat) (front back : List (Text × Ending)) :
    processFrom settings number (front ++ back) =
      processFrom settings number front ++ processFrom settings (number + front.length) back := by
  simp only [processFrom_eq, List.zipIdx_append, List.map_append]

/-- Where a line stands is to be seen in its number and nowhere else. -/
theorem processFrom_add (settings : Settings) (number count : Nat) (lines : List (Text × Ending)) :
    processFrom settings (number + count) lines =
      (processFrom settings number lines).map (LineReport.movedBy count) := by
  induction lines generalizing number with
  | nil => rfl
  | cons pair lines ih =>
    have hnext : number + count + 1 = number + 1 + count := by omega
    simp only [processFrom, List.map_cons, hnext, ih]
    rfl

/-! ### Summaries -/

theorem total_append (left right : List Nat) : total (left ++ right) = total left + total right := by
  induction left with
  | nil => simp [total]
  | cons count left ih =>
    rw [List.cons_append, total, total, ih]
    omega

theorem total_map_add {α : Type} (f g : α → Nat) (items : List α) :
    total (items.map fun item => f item + g item) = total (items.map f) + total (items.map g) := by
  induction items with
  | nil => rfl
  | cons item items ih =>
    simp only [List.map_cons, total, ih]
    omega

theorem total_map_zero {α : Type} (items : List α) : total (items.map fun _ => 0) = 0 := by
  induction items with
  | nil => rfl
  | cons item items ih => rw [List.map_cons, total, ih]

/-- What is left out because it is zero does not count. -/
theorem total_filter_pos {α : Type} (f : α → Nat) (items : List α) :
    total (((items.map fun item => (item, f item)).filter fun pair => 0 < pair.2).map Prod.snd) =
      total (items.map f) := by
  induction items with
  | nil => rfl
  | cons item items ih =>
    rw [List.map_cons, List.map_cons, List.filter_cons]
    by_cases hpos : 0 < f item
    · rw [if_pos (by simpa using hpos), List.map_cons, total, total, ih]
    · have hzero : f item = 0 := by omega
      rw [if_neg (by simpa using hpos), total, ih, hzero, Nat.zero_add]

/-- What is left out because it is zero is found to be zero. -/
theorem lookup_filter_pos {α : Type} [BEq α] [LawfulBEq α] (f : α → Nat) (items : List α) (key : α)
    (hkey : key ∈ items) :
    (((items.map fun item => (item, f item)).filter fun pair => 0 < pair.2).lookup key).getD 0 =
      f key := by
  have hmissing : ∀ items : List α, key ∉ items →
      ((items.map fun item => (item, f item)).filter fun pair => 0 < pair.2).lookup key = none := by
    intro items hnot
    rw [List.lookup_eq_none_iff]
    intro pair hpair
    obtain ⟨item, hitem, rfl⟩ := List.mem_map.1 (List.mem_of_mem_filter hpair)
    refine bne_iff_ne.2 ?_
    rintro rfl
    exact hnot hitem
  induction items with
  | nil => cases hkey
  | cons item items ih =>
    rw [List.map_cons, List.filter_cons]
    by_cases hsame : key = item
    · subst hsame
      by_cases hpos : 0 < f key
      · rw [if_pos (by simpa using hpos), List.lookup_cons_self]
        rfl
      · have hzero : f key = 0 := by omega
        rw [if_neg (by simpa using hpos)]
        by_cases hmem : key ∈ items
        · exact ih hmem
        · rw [hmissing items hmem, hzero]
          rfl
    · have hrest : key ∈ items := (List.mem_cons.1 hkey).resolve_left hsame
      by_cases hpos : 0 < f item
      · rw [if_pos (by simpa using hpos), List.lookup_cons, beq_eq_false_iff_ne.2 hsame]
        exact ih hrest
      · rw [if_neg (by simpa using hpos)]
        exact ih hrest

/-- How many changes of a category a summary counts. -/
def Summary.count (summary : Summary) (category : Migration.Category) : Nat :=
  (summary.changesByCategory.lookup category).getD 0

theorem count_summarize (lines : List LineReport) (category : Migration.Category) :
    (summarize lines).count category = countCategory lines category := by
  have hall : category ∈ Migration.Category.all := by
    cases category <;> decide
  exact lookup_filter_pos (countCategory lines) Migration.Category.all category hall

/-- Every change has one category. -/
theorem total_categories (changes : List Migration.Change) :
    total (Migration.Category.all.map fun category =>
      (changes.filter fun change => change.rule.category == category).length) = changes.length := by
  induction changes with
  | nil => rfl
  | cons change changes ih =>
    have hone : total (Migration.Category.all.map fun category =>
        if change.rule.category == category then 1 else 0) = 1 := by
      cases change.rule.category <;> rfl
    have hcons : ∀ category : Migration.Category,
        ((change :: changes).filter fun change => change.rule.category == category).length =
          (if change.rule.category == category then 1 else 0) +
            (changes.filter fun change => change.rule.category == category).length := by
      intro category
      rw [List.filter_cons]
      split
      · rw [List.length_cons]
        omega
      · omega
    simp only [hcons, total_map_add, hone, ih, List.length_cons]
    omega

/-- **What a summary counts for the single categories is together what it counts in all.** -/
theorem total_changesByCategory (lines : List LineReport) :
    total ((summarize lines).changesByCategory.map Prod.snd) = (summarize lines).totalChanges := by
  have hcounts : total (Migration.Category.all.map (countCategory lines)) =
      total (lines.map fun line => line.outcome.changes.length) := by
    induction lines with
    | nil => exact total_map_zero Migration.Category.all
    | cons line lines ih =>
      have hcons : ∀ category, countCategory (line :: lines) category =
          (line.outcome.changes.filter fun change => change.rule.category == category).length +
            countCategory lines category := fun _ => rfl
      have hline := total_categories line.outcome.changes
      rw [List.map_congr_left fun category _ => hcons category, total_map_add, hline, ih]
      rfl
  exact (total_filter_pos (countCategory lines) Migration.Category.all).trans hcounts

/-- The rank of a risk, where no risk at all comes lowest. -/
def riskRank : Option Risk → Nat
  | none => 0
  | some risk => risk.level + 1

/-- The greater of two risks is one of them, and neither exceeds it. -/
theorem maxRisk_spec (left right : Option Risk) :
    (maxRisk left right = left ∨ maxRisk left right = right) ∧
      riskRank left ≤ riskRank (maxRisk left right) ∧
      riskRank right ≤ riskRank (maxRisk left right) := by
  cases left with
  | none => exact ⟨.inr rfl, Nat.zero_le _, Nat.le_refl _⟩
  | some left =>
    cases right with
    | none => exact ⟨.inl rfl, Nat.le_refl _, Nat.zero_le _⟩
    | some right =>
      simp only [maxRisk, Risk.max]
      split
      · exact ⟨.inr rfl, by simpa [riskRank], Nat.le_refl _⟩
      · exact ⟨.inl rfl, Nat.le_refl _, by simp only [riskRank]; omega⟩

theorem maxRisk_assoc (first second third : Option Risk) :
    maxRisk (maxRisk first second) third = maxRisk first (maxRisk second third) := by
  rcases first with _ | _ | _ | _ | _ <;> rcases second with _ | _ | _ | _ | _ <;>
    rcases third with _ | _ | _ | _ | _ <;> rfl

/-- The highest risk of lines in two parts. -/
theorem highestRisk_append (left right : List LineReport) :
    (summarize (left ++ right)).highestRisk =
      maxRisk (summarize left).highestRisk (summarize right).highestRisk := by
  simp only [summarize]
  induction left with
  | nil => rfl
  | cons line left ih => rw [List.cons_append, List.foldr_cons, List.foldr_cons, ih, maxRisk_assoc]

/-- A summary is the sum of two: the counts add up, and the highest risk is the greater of the two. -/
structure Summary.IsSum (left right whole : Summary) : Prop where
  totalLines : whole.totalLines = left.totalLines + right.totalLines
  changedLines : whole.changedLines = left.changedLines + right.changedLines
  totalChanges : whole.totalChanges = left.totalChanges + right.totalChanges
  invalidCommands : whole.invalidCommands = left.invalidCommands + right.invalidCommands
  count : ∀ category, whole.count category = left.count category + right.count category
  highestRisk : whole.highestRisk = left.highestRisk ∨ whole.highestRisk = right.highestRisk
  left_le : riskRank left.highestRisk ≤ riskRank whole.highestRisk
  right_le : riskRank right.highestRisk ≤ riskRank whole.highestRisk

/-- **The summary of lines in two parts is the sum of the summaries of the parts.** -/
theorem isSum_summarize (left right : List LineReport) :
    Summary.IsSum (summarize left) (summarize right) (summarize (left ++ right)) := by
  have htotal : ∀ f : LineReport → Nat,
      total ((left ++ right).map f) = total (left.map f) + total (right.map f) := fun f => by
    rw [List.map_append, total_append]
  obtain ⟨hrisk, hleft, hright⟩ :=
    maxRisk_spec (summarize left).highestRisk (summarize right).highestRisk
  rw [← highestRisk_append] at hrisk hleft hright
  exact {
    totalLines := List.length_append
    changedLines := by simp only [summarize, List.filter_append, List.length_append]
    totalChanges := htotal _
    invalidCommands := htotal _
    count := fun category => by
      simp only [count_summarize, countCategory]
      exact htotal _
    highestRisk := hrisk
    left_le := hleft
    right_le := hright }

/-- What the summary says does not depend on the numbers of the lines. -/
theorem summarize_movedBy (count : Nat) (lines : List LineReport) :
    summarize (lines.map (LineReport.movedBy count)) = summarize lines := by
  have hmap : ∀ f : LineReport → Nat, (∀ line, f (line.movedBy count) = f line) →
      (lines.map (LineReport.movedBy count)).map f = lines.map f := fun f hf => by
    rw [List.map_map]
    exact List.map_congr_left fun line _ => hf line
  have hcount : ∀ category, countCategory (lines.map (LineReport.movedBy count)) category =
      countCategory lines category := fun _ => congrArg total (hmap _ fun _ => rfl)
  unfold summarize
  rw [Summary.mk.injEq]
  refine ⟨List.length_map _, ?_, congrArg total (hmap _ fun _ => rfl), ?_,
    congrArg total (hmap _ fun _ => rfl), ?_⟩
  · rw [List.filter_map, List.length_map]
    rfl
  · simp only [hcount]
  · rw [List.foldr_map]
    rfl

/-! ### Scripts -/

/-- **A script in two parts is processed part by part.** -/
theorem process_append (settings : Settings) {front : Text} (h : EndsLine front) (back : Text) :
    let first := process settings front
    let second := process settings back
    let whole := process settings (front ++ back)
    whole.lines = first.lines ++ second.lines.map (LineReport.movedBy (split front).length) ∧
    whole.text = first.text ++ second.text ∧
    Summary.IsSum first.summary second.summary whole.summary ∧
    ∀ text, total ((process settings text).summary.changesByCategory.map Prod.snd) =
      (process settings text).summary.totalChanges := by
  intro first second whole
  have hlines : whole.lines =
      first.lines ++ second.lines.map (LineReport.movedBy (split front).length) := by
    change processFrom settings 1 (split (front ++ back)) = _
    rw [split_append h, processFrom_append, processFrom_add]
    rfl
  refine ⟨hlines, ?_, ?_, fun text => total_changesByCategory _⟩
  · simp only [whole, first, second, text_process, split_append h, List.map_append]
    exact List.flatMap_append
  · change Summary.IsSum (summarize first.lines) (summarize second.lines) (summarize whole.lines)
    rw [hlines, ← summarize_movedBy (split front).length second.lines]
    exact isSum_summarize _ _

/-- A renamed command, and a command that the catalogue does not know. -/
def upperPart : Text :=
  "usacloud ipv4 list\r\nusacloud sever list\n".toList

/-- An empty line, two changes in a dangerous line, and a last line that is retired. -/
def lowerPart : Text :=
  "\nusacloud disk delete --selector=x -o csv\nusacloud summary".toList

theorem process_append_mixed_parts :
    EndsLine upperPart ∧
    (process {} (upperPart ++ lowerPart)).lines.map LineReport.number = [1, 2, 3, 4, 5] ∧
    (process {} (upperPart ++ lowerPart)).text =
      (process {} upperPart).text ++ (process {} lowerPart).text ∧
    (process {} (upperPart ++ lowerPart)).summary.totalChanges = 1 + 3 ∧
    (process {} (upperPart ++ lowerPart)).summary.invalidCommands = 1 + 0 ∧
    (process {} (upperPart ++ lowerPart)).summary.count .resourceRename = 1 + 0 ∧
    (process {} (upperPart ++ lowerPart)).summary.count .deprecatedCommand = 0 + 1 ∧
    riskRank (some .critical) ≤ riskRank (process {} (upperPart ++ lowerPart)).summary.highestRisk := by
  have hends : EndsLine upperPart := .inr rfl
  obtain ⟨hlines, htext, hsum, -⟩ := process_append {} hends lowerPart
  have hupper : (process {} upperPart).summary = ⟨2, 1, 1, [(.resourceRename, 1)], 1, some .low⟩ := by
    decide +kernel
  have hlower : (process {} lowerPart).summary =
      ⟨3, 2, 3, [(.outputFormat, 1), (.selectorMigration, 1), (.deprecatedCommand, 1)], 0,
        some .critical⟩ := by
    decide +kernel
  rw [hupper, hlower] at hsum
  refine ⟨hends, ?_, htext, hsum.totalChanges, hsum.invalidCommands, hsum.count _, hsum.count _,
    hsum.right_le⟩
  rw [hlines, List.map_append]
  decide +kernel

end Script
end ScriptUpgrade
