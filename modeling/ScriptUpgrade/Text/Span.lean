/-
# Spans

A span is a stretch of a text given by the byte offsets of its two ends. `Stretch` adds the
characters that stand there, which is how stretches of a line are handed out.
-/

import ScriptUpgrade.Text.Basic

namespace ScriptUpgrade

/-- The bytes from `start` up to and without `stop`. -/
structure Span where
  start : Nat
  stop : Nat
deriving DecidableEq, Repr

/-- The number of bytes of a span. -/
def Span.size (span : Span) : Nat :=
  span.stop - span.start

/-- A span of a text together with the characters that stand there. -/
structure Stretch where
  span : Span
  text : Text
deriving DecidableEq, Repr

/-- The stretch that starts at `start` and holds `text`. -/
def Stretch.starting (start : Nat) (text : Text) : Stretch :=
  ⟨⟨start, start + Text.size text⟩, text⟩

end ScriptUpgrade
