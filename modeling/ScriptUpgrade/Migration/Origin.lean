/-
# Origins

While rule after rule changes a line, its offsets move. An origin map leads a span of the current
line back to the line as it was at first. It lists the regions replaced so far, in the order of
the current line: where each region stands now, and where the text it came from stood. Text between
regions is untouched, so the last region before it says how far it has moved.

What is inside a region cannot be told apart any more: a span that starts or ends there leads to the
start or the end of the whole stretch that the region came from.
-/

import ScriptUpgrade.Text.Span

namespace ScriptUpgrade
namespace Migration

/-- A replaced region: where its text stood at first, and where it stands now. -/
structure Region where
  first : Span
  now : Span
deriving DecidableEq, Repr

/-- The size of the line as it was at first, and the regions replaced since. -/
structure Origin where
  size : Nat
  regions : List Region
deriving DecidableEq, Repr

/-- A position moved by `shift`, not below zero. -/
def moved (position : Nat) (shift : Int) : Nat :=
  (position + shift).toNat

/-- A region that stands `shift` further. -/
def Region.moved (region : Region) (shift : Int) : Region :=
  ⟨region.first, ⟨Migration.moved region.now.start shift, Migration.moved region.now.stop shift⟩⟩

/-- How far the text after a region has to be moved to get back to where it stood at first. -/
def Region.back (region : Region) : Int :=
  region.first.stop - region.now.stop

namespace Origin

/-- The origin map of a line that nothing has changed yet. -/
def untouched (line : Text) : Origin :=
  ⟨Text.size line, []⟩

/-- Where the start of a span stood, `shift` being how far the text here has moved back. -/
def startFrom (position : Nat) (shift : Int) : List Region → Nat
  | [] => moved position shift
  | region :: regions =>
    if position < region.now.start then moved position shift
    else if position < region.now.stop then region.first.start
    else startFrom position region.back regions

/-- Where the end of a span stood, `shift` being how far the text here has moved back. -/
def stopFrom (position : Nat) (shift : Int) : List Region → Nat
  | [] => moved position shift
  | region :: regions =>
    if position ≤ region.now.start then moved position shift
    else if position ≤ region.now.stop then region.first.stop
    else stopFrom position region.back regions

/-- Where a span of the current line stood at first. -/
def trace (origin : Origin) (span : Span) : Span :=
  let start := min (startFrom span.start 0 origin.regions) origin.size
  let stop := stopFrom span.stop 0 origin.regions
  ⟨start, min (max stop start) origin.size⟩

/-- The regions after replacements, given by the span they replace, where it stood at first and the
size of the new text, from left to right. `shift` is how far the replacements so far have moved the
text. A region that meets a replacement is absorbed by it. -/
def merge (shift : Int) : List (Span × Span × Nat) → List Region → List Region
  | [], regions => regions.map (·.moved shift)
  | (span, first, size) :: replacements, regions =>
    let (left, right) := regions.span fun region => region.now.stop ≤ span.start
    let start := moved span.start shift
    left.map (·.moved shift) ++ ⟨first, ⟨start, start + size⟩⟩ ::
      merge (shift + (size - span.size : Int)) replacements
        (right.dropWhile fun region => region.now.start < span.stop)

/-- The origin map after replacements at the given spans by texts of the given sizes, from left to
right. -/
def record (origin : Origin) (replacements : List (Span × Nat)) : Origin :=
  { origin with
    regions := merge 0 (replacements.map fun (span, size) => (span, origin.trace span, size))
      origin.regions }

end Origin
end Migration
end ScriptUpgrade
