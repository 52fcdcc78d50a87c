/-
# Every change shows

A line that was changed does not read as it did. This is not clear for changes in place, since one of
them might undo another; that none does follows from a measure. Every character has a weight
(`Text.weight`), and a stretch that an in-place rule replaces is heavier than what it becomes
(`weigh_replaced`), so that every change costs the line at least one unit (`weigh_inPlace`).

| change | what it costs |
| --- | --- |
| selector | the `t` of `--selector` |
| output type | the `v` of `csv` or `tsv` |
| zone | gaps around the `=` or instead of it, or a letter in upper case |
| `iso-image`, `startup-script`, `ipv4`, `price` | the `g`, the `u`, the `v`, the `p` |
| `product-…` | the `u`; the `p` comes back in `-plan` |

Retirement turns a line that is no comment into one. So a line has changes exactly if it reads
differently (`changed_apply_iff`). The same then holds of scripts, whose lines stay apart when they are
joined (`changed_process_iff`), and of files that are written back (`write_iff`).
-/

import ScriptUpgrade.Program.Perform
import ScriptUpgrade.Proofs.LineBreaks

namespace ScriptUpgrade

namespace Text

/-- The weight of a character. One in upper case weighs a unit more than in lower case. -/
def weight (c : Char) : Nat :=
  (if c.isUpper then 1 else 0) +
    match c.toLower with
    | 'p' => 2
    | 'g' | 't' | 'u' | 'v' | ' ' | '\t' => 1
    | _ => 0

/-- The weight of a text. -/
def weigh : Text → Nat
  | [] => 0
  | c :: text => weight c + weigh text

theorem weigh_cons (c : Char) (text : Text) : weigh (c :: text) = weight c + weigh text := rfl

theorem weigh_append (front back : Text) : weigh (front ++ back) = weigh front + weigh back := by
  induction front with
  | nil => exact (Nat.zero_add _).symm
  | cons c front ih => rw [List.cons_append, weigh_cons, weigh_cons, ih, Nat.add_assoc]

theorem weight_of_isGap {c : Char} (h : isGap c = true) : weight c = 1 := by
  simp only [isGap, Bool.or_eq_true, beq_iff_eq] at h
  rcases h with rfl | rfl <;> rfl

theorem weight_le_weigh {c : Char} {text : Text} (h : c ∈ text) : weight c ≤ weigh text := by
  obtain ⟨front, back, rfl⟩ := List.append_of_mem h
  rw [weigh_append, weigh_cons]
  omega

end Text

namespace Migration

open Fragment Call
open Text (weight weigh weigh_append weigh_cons)

variable {front old new rest : Text}

/-! ### What is replaced is heavier than what it becomes -/

theorem weigh_le_of_dropsLabel {text kept : Text} (h : DropsLabel text kept) : weigh kept ≤ weigh text := by
  obtain ⟨label, rfl⟩ := h.suffix
  rw [weigh_append]
  exact Nat.le_add_left _ _

theorem IsSelectorValue.weigh_le {taken value : Text} (h : IsSelectorValue taken value rest) :
    weigh value ≤ weigh taken := by
  cases h with
  | quoted _ _ _ hkept =>
    have := weigh_le_of_dropsLabel hkept
    simp only [List.cons_append, weigh_cons, weigh_append]
    omega
  | bare _ _ _ hkept => exact weigh_le_of_dropsLabel hkept

theorem weigh_selector (h : Taken selector? front old new rest) : weigh new < weigh old := by
  obtain ⟨lead, taken, value, _, -, hvalue, -, hhit⟩ := selector?_shape h.hit
  simp only [Hit.mk.injEq, Option.some.injEq] at hhit
  obtain ⟨rfl, rfl⟩ := hhit
  have hname : weigh "--selector".toList = 1 := by decide
  have hle := hvalue.weigh_le
  rw [weigh_append, weigh_append, hname]
  omega

theorem weigh_output (h : Taken outputType? front old new rest) : weigh new < weigh old := by
  obtain ⟨flag, mark, format, _, -, -, hformat, -, hhit⟩ := outputType?_shape h.hit
  simp only [Hit.mk.injEq, Option.some.injEq] at hhit
  obtain ⟨rfl, rfl⟩ := hhit
  have hjson : weigh "json".toList = 0 := by decide
  have hpos : 0 < weigh format := by
    obtain ⟨c, s, v, rfl, -, -, hv⟩ := hformat.exists_cons
    have hle : weight v ≤ weigh [c, s, v] := Text.weight_le_weigh (by simp)
    rcases hv with rfl | rfl <;> exact lt_of_lt_of_le (by decide) hle
  rw [weigh_append (flag ++ mark), weigh_append (flag ++ mark), hjson]
  omega

/-- A name in lower case is lighter, unless it was in lower case before. -/
theorem weigh_toLower {name : Text} (hname : ∀ c ∈ name, isZoneChar c = true) :
    weigh (name.map Char.toLower) ≤ weigh name ∧
      (weigh (name.map Char.toLower) = weigh name → name.map Char.toLower = name) := by
  have hchar : ∀ c, isZoneChar c = true →
      weight c.toLower ≤ weight c ∧ (weight c.toLower = weight c → c.toLower = c) := by
    intro c hc
    obtain ⟨n, rfl⟩ := exists_fin_of_isZoneChar hc
    revert n
    decide
  induction name with
  | nil => exact ⟨le_rfl, fun _ => rfl⟩
  | cons c name ih =>
    obtain ⟨hle, heq⟩ := ih fun d hd => hname d (List.mem_cons_of_mem _ hd)
    obtain ⟨hcle, hceq⟩ := hchar c (hname c List.mem_cons_self)
    rw [List.map_cons, weigh_cons, weigh_cons]
    refine ⟨Nat.add_le_add hcle hle, fun h => ?_⟩
    rw [hceq (by omega), heq (by omega)]

/-- A separator without weight is an equals sign. -/
theorem IsZoneMark.eq_of_weigh {mark : Text} (h : IsZoneMark mark) (hweigh : weigh mark = 0) :
    mark = ['='] := by
  refine h.eq_of_no_gap fun c hc => ?_
  have hle := Text.weight_le_weigh hc
  rw [Bool.eq_false_iff]
  intro hgap
  rw [Text.weight_of_isGap hgap] at hle
  omega

theorem weigh_zone (h : Taken zone? front old new rest) : weigh new < weigh old := by
  obtain ⟨mark, name, _, hmark, ⟨_, _, -, -, hname⟩, -, -, hhit⟩ := zone?_shape h.hit
  simp only [Hit.mk.injEq] at hhit
  obtain ⟨rfl, hnew⟩ := hhit
  split at hnew
  · cases hnew
  · rename_i hne
    obtain rfl := Option.some.inj hnew
    have hflag : weigh "--zone=".toList = weigh "--zone".toList := by decide
    obtain ⟨hle, heq⟩ := weigh_toLower hname
    rw [weigh_append, weigh_append, weigh_append, hflag]
    by_contra hlt
    -- nothing is lost only if the option reads already as it should
    refine hne ?_
    rw [hmark.eq_of_weigh (by omega), heq (by omega)]
    rfl

/-- A rename lowers the weight if all renames of its table do. -/
theorem weigh_renamed {table : List (Text × Text)} (htable : ∀ row ∈ table, weigh row.2 < weigh row.1)
    (h : Renamed table front old new rest) : weigh new < weigh old :=
  htable (old, new) h.entry

/-- **What an in-place rule replaces is heavier than what it becomes.** -/
theorem weigh_replaced {rule : Rule} (hrule : rule ∈ inPlaceRules) {body : Text}
    (hmem : .replaced old new ∈ rule.fragments body) : weigh new < weigh old := by
  simp only [inPlaceRules, List.mem_cons, List.not_mem_nil, or_false] at hrule
  rcases hrule with rfl | rfl | rfl | rfl | rfl
  · obtain ⟨_, _, htaken⟩ := (each_taken anchored_selector? body).of_mem hmem
    exact weigh_selector htaken
  · obtain ⟨_, _, htaken⟩ := (each_taken isPlainPattern_outputType?.toAnchored body).of_mem hmem
    exact weigh_output htaken
  · obtain ⟨_, _, htaken⟩ := (each_taken isPlainPattern_zone?.toAnchored body).of_mem hmem
    exact weigh_zone htaken
  · obtain ⟨_, _, hrenamed⟩ := (each_commandFragments resourceRenames body).of_mem hmem
    exact weigh_renamed (by decide) hrenamed
  · obtain ⟨_, _, hrenamed⟩ := (each_commandFragments productAliases body).of_mem hmem
    exact weigh_renamed (by decide) hrenamed

/-! ### Every change costs weight -/

theorem weigh_newText {fragments : List Fragment}
    (h : ∀ old new, .replaced old new ∈ fragments → weigh new < weigh old) (start : Nat) :
    weigh (newText fragments) + (editsFrom start fragments).length ≤ weigh (oldText fragments) := by
  induction fragments generalizing start with
  | nil => exact le_rfl
  | cons fragment fragments ih =>
    have htail := ih fun old new hmem => h old new (List.mem_cons_of_mem _ hmem)
    rw [newText, oldText, List.flatMap_cons, List.flatMap_cons, weigh_append, weigh_append]
    cases fragment with
    | kept c =>
      have := htail (start + c.utf8Size)
      simp only [editsFrom, before, after, newText, oldText] at this ⊢
      omega
    | replaced old new =>
      have hlt := h old new List.mem_cons_self
      have := htail (start + Text.size old)
      simp only [editsFrom, before, after, newText, oldText, List.length_cons] at this ⊢
      omega

/-- One pass: the changes it adds are paid for. -/
theorem weigh_pass {rule : Rule} (hrule : rule ∈ inPlaceRules) (keyword : Text) (progress : Progress) :
    weigh (pass keyword progress rule).line + (pass keyword progress rule).changes.length ≤
      weigh progress.line + progress.changes.length := by
  have h : weigh (newText (fragments keyword rule progress.line)) +
      (edits (fragments keyword rule progress.line)).length ≤
        weigh (oldText (fragments keyword rule progress.line)) := by
    refine weigh_newText (fun old new hmem => ?_) 0
    obtain ⟨body, -, hreplaced⟩ := exists_of_replaced_mem hmem
    exact weigh_replaced hrule hreplaced
  rw [oldText_fragments] at h
  simp only [pass, List.length_append, List.length_map]
  omega

theorem weigh_foldl_pass {rules : List Rule} (hrules : ∀ rule ∈ rules, rule ∈ inPlaceRules)
    (keyword : Text) (progress : Progress) :
    weigh (rules.foldl (pass keyword) progress).line +
        (rules.foldl (pass keyword) progress).changes.length ≤
      weigh progress.line + progress.changes.length := by
  induction rules generalizing progress with
  | nil => exact le_rfl
  | cons rule rules ih =>
    rw [List.foldl_cons]
    exact (ih (fun r hr => hrules r (List.mem_cons_of_mem _ hr)) _).trans
      (weigh_pass (hrules rule List.mem_cons_self) keyword progress)

/-- **Every change in place costs the line at least one unit of weight.** -/
theorem weigh_inPlace (keyword line : Text) :
    weigh (inPlace keyword line).line + (inPlace keyword line).changes.length ≤ weigh line :=
  weigh_foldl_pass (fun _ h => h) keyword ⟨line, .untouched line, []⟩

/-- Passes that add no change leave the line as it is. -/
theorem line_foldl_pass_of_changes {keyword : Text} {rules : List Rule} {progress : Progress}
    (h : (rules.foldl (pass keyword) progress).changes = progress.changes) :
    (rules.foldl (pass keyword) progress).line = progress.line := by
  induction rules generalizing progress with
  | nil => rfl
  | cons rule rules ih =>
    rw [List.foldl_cons] at h ⊢
    have hnil : edits (fragments keyword rule progress.line) = [] := by
      have hlater := (changes_isPrefix_foldl_pass keyword rules (pass keyword progress rule)).length_le
      rw [h, pass, List.length_append, List.length_map] at hlater
      exact List.length_eq_zero_iff.1 (by omega)
    obtain ⟨hline, hpass⟩ := pass_of_edits_eq_nil hnil
    rw [ih (h.trans hpass.symm), hline]

theorem changes_inPlace_eq_nil_iff (keyword line : Text) :
    (inPlace keyword line).changes = [] ↔ (inPlace keyword line).line = line := by
  constructor
  · exact line_foldl_pass_of_changes
  · intro hline
    have hweigh := weigh_inPlace keyword line
    rw [hline] at hweigh
    exact List.length_eq_zero_iff.1 (by omega)

/-- A retired line does not read as it did. -/
theorem comment_ne_self {keyword line body : Text} (h : .call body ∈ dissect keyword line)
    (guidance : Text) : comment guidance line ≠ line := by
  intro heq
  have hcomment := isComment_comment guidance line
  rw [heq, isComment_eq_false_of_call h] at hcomment
  cases hcomment

/-- **A line has changes exactly if it reads differently.** -/
theorem changed_apply_iff (keyword line : Text) :
    (apply keyword line).changed = true ↔ (apply keyword line).migrated ≠ line := by
  rcases apply_outcome keyword line with
    ⟨-, happly⟩ | ⟨⟨body, hbody⟩, ⟨guidance, -, happly⟩ | ⟨-, happly⟩⟩
  · simp [happly, Outcome.changed]
  · simp [happly, Outcome.changed, comment_ne_self hbody]
  · rw [happly, ne_eq, ← changes_inPlace_eq_nil_iff, Outcome.changed]
    simp

end Migration

namespace Script

/-! ### Scripts and files -/

/-- A script has changes exactly if one of its lines has. -/
theorem changed_process_eq_false_iff (settings : Settings) (text : Text) :
    (process settings text).changed = false ↔
      ∀ pair ∈ split text, (Migration.apply settings.keyword pair.1).changed = false := by
  have hview : (process settings text).lines.map (·.outcome.changed) =
      (split text).map fun pair => (Migration.apply settings.keyword pair.1).changed :=
    map_processFrom settings (fun _ _ => rfl) 1 (split text)
  have hlines : (process settings text).changed = false ↔
      ∀ changed ∈ (process settings text).lines.map (·.outcome.changed), changed = false := by
    change decide (0 < ((process settings text).lines.filter _).length) = false ↔ _
    simp
  rw [hlines, hview]
  simp

/-- **A script has changes exactly if it reads differently.** -/
theorem changed_process_iff (settings : Settings) (text : Text) :
    (process settings text).changed = true ↔ (process settings text).text ≠ text := by
  have hsame : (process settings text).text = text ↔
      ∀ pair ∈ split text, (Migration.apply settings.keyword pair.1).migrated = pair.1 := by
    -- a text is the one given exactly if its lines are
    have hlines : (process settings text).text = text ↔
        split (process settings text).text = (split text).map id := by
      rw [List.map_id]
      refine ⟨congrArg split, fun h => ?_⟩
      rw [← join_split (process settings text).text, h, join_split]
    rw [hlines, split_text, List.map_inj_left]
    refine forall₂_congr fun pair _ => ?_
    rw [id, Prod.ext_iff]
    exact and_iff_left rfl
  rw [← Bool.not_eq_false, changed_process_eq_false_iff, not_iff_not, hsame]
  refine forall₂_congr fun pair _ => ?_
  rw [← Bool.not_eq_true, Migration.changed_apply_iff, not_not]

end Script

namespace Files

/-- A script is written exactly if its contents are not what was read. -/
theorem writeBack_iff {tree tree' : Tree} {source : Source} {contents : Text} {outcome : Outcome}
    (h : writeBack tree source contents = (.ok outcome, tree')) :
    outcome = .written ↔ contents ≠ source.text := by
  unfold writeBack at h
  split at h
  · cases h
  · split at h
    · cases h
    · split at h
      · rename_i hsame
        cases h
        simp [hsame]
      · rename_i hdiffers
        split at h
        · cases h
        · split at h
          · cases h
          · cases h
            simp [hdiffers]

end Files

namespace Request

open Digest (Bytes)
open Files (Source Tree)

theorem writeBack_reportOn_iff {tree tree' : Tree} {source : Source} {outcome : Files.Outcome}
    (h : Files.writeBack tree source (reportOn source).text = (.ok outcome, tree')) :
    outcome = .written ↔ 0 < (reportOn source).summary.changedLines := by
  rw [Files.writeBack_iff h, reportOn, ← Script.changed_process_iff, Script.Report.changed,
    decide_eq_true_iff]

theorem writeBackAll_iff {tree tree' : Tree} {sources : List Source} {written : List WrittenBack}
    (h : writeBackAll tree sources = (.ok written, tree')) :
    ∀ file ∈ written, file.outcome = .written ↔ 0 < file.changedLines := by
  induction sources generalizing tree written with
  | nil =>
    cases h
    simp
  | cons source sources ih =>
    unfold writeBackAll at h
    dsimp only at h
    split at h
    · cases h
    · rename_i outcome after hwritten
      cases hrest : writeBackAll after sources with
      | mk result last =>
        rw [hrest] at h
        cases result with
        | error failure => cases h
        | ok others =>
          cases h
          intro file hfile
          rcases List.mem_cons.1 hfile with rfl | hfile
          · exact writeBack_reportOn_iff hwritten
          · exact ih hrest file hfile

theorem write_iff {tree tree' : Tree} {input : Bytes} {files : List Text} {written : List WrittenBack}
    (h : write tree input files = (.ok written, tree')) :
    ∀ file ∈ written, file.outcome = .written ↔ 0 < file.changedLines := by
  unfold write at h
  split at h
  · cases h
  · split at h
    · cases h
    · exact writeBackAll_iff h

theorem perform_write (tree : Tree) (input : Bytes) (files : List Text) :
    perform tree input (.convert .write files) =
      ((write tree input files).1.map .writtenBack, (write tree input files).2) := rfl

/-- **Changes are counted exactly where something reads differently**: in a line, in a script, in a
file that is written back, and in every file of a whole run. -/
theorem changed_iff_differs :
    (∀ keyword line, (Migration.apply keyword line).changed = true ↔
      (Migration.apply keyword line).migrated ≠ line) ∧
    (∀ settings text, (Script.process settings text).changed = true ↔
      (Script.process settings text).text ≠ text) ∧
    (∀ tree tree' source outcome,
      Files.writeBack tree source (reportOn source).text = (.ok outcome, tree') →
        (outcome = .written ↔ 0 < (reportOn source).summary.changedLines)) ∧
    ∀ tree tree' input files written,
      perform tree input (.convert .write files) = (.ok (.writtenBack written), tree') →
        ∀ file ∈ written, file.outcome = .written ↔ 0 < file.changedLines := by
  refine ⟨Migration.changed_apply_iff, Script.changed_process_iff,
    fun _ _ _ _ => writeBack_reportOn_iff, fun tree tree' input files written h => ?_⟩
  rw [perform_write] at h
  cases hwrite : write tree input files with
  | mk result after =>
    rw [hwrite] at h
    cases result with
    | error failure => cases h
    | ok others =>
      cases h
      exact write_iff hwrite

/-- A script that needs no change. -/
def plainScript : Text :=
  "usacloud disk list\n".toList

/-- A script with two changes in its only line and one without, in the working directory. -/
def twoScripts : Tree where
  entries :=
    [(["a.sh".toList], ⟨1, 1, .file (Utf8.encode "usacloud ipv4 list --zone=TK1A\n".toList) 0o644⟩),
     (["b.sh".toList], ⟨2, 2, .file (Utf8.encode plainScript) 0o644⟩)]
  here := []
  clock := 3
  locks := []

/-- The script without changes as it is read. -/
def plainSource : Source :=
  ⟨some ("b.sh".toList, ⟨⟨2, 19, some 2⟩, Digest.ofBytes (Utf8.encode plainScript)⟩), plainScript⟩

theorem changed_iff_differs_two_scripts :
    (∃ after, Files.writeBack twoScripts plainSource (reportOn plainSource).text =
        (.ok .unchanged, after) ∧
      (Files.Outcome.unchanged = .written ↔ 0 < (reportOn plainSource).summary.changedLines)) ∧
    ∃ written after,
      perform twoScripts [] (.convert .write ["a.sh".toList, "b.sh".toList]) =
        (.ok (.writtenBack written), after) ∧
      written = [⟨"a.sh".toList, .written, 1, 2⟩, ⟨"b.sh".toList, .unchanged, 0, 0⟩] ∧
      ∀ file ∈ written, file.outcome = .written ↔ 0 < file.changedLines := by
  have hfile : (Files.writeBack twoScripts plainSource (reportOn plainSource).text).1 =
      .ok .unchanged := by
    decide +kernel
  have hfiles : (write twoScripts [] ["a.sh".toList, "b.sh".toList]).1 =
      .ok [⟨"a.sh".toList, .written, 1, 2⟩, ⟨"b.sh".toList, .unchanged, 0, 0⟩] := by
    decide +kernel
  obtain ⟨-, -, hwriteBack, hperform⟩ := changed_iff_differs
  have hrun : perform twoScripts [] (.convert .write ["a.sh".toList, "b.sh".toList]) =
      (.ok (.writtenBack [⟨"a.sh".toList, .written, 1, 2⟩, ⟨"b.sh".toList, .unchanged, 0, 0⟩]),
        (write twoScripts [] ["a.sh".toList, "b.sh".toList]).2) := by
    rw [perform_write, hfiles, Except.map]
  exact ⟨⟨_, Prod.ext hfile rfl, hwriteBack _ _ _ _ (Prod.ext hfile rfl)⟩,
    _, _, hrun, rfl, hperform _ _ _ _ _ hrun⟩

end Request
end ScriptUpgrade
