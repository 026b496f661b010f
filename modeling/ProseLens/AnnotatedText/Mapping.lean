import ProseLens.AnnotatedText.Basic
import ProseLens.Text.Bytes

/-! # Offsets in the plain text and in the source

Both directions of the mapping are one walk over the breakpoints, `locate`, taken along one of two
axes.  Between two breakpoints a span of text maps byte for byte, while a span of markup is
indivisible: an offset inside it goes to one of its ends.  Where several breakpoints share an
offset, because markup in between contributes nothing, the `Edge` of the query says which of them
counts:

* `lowest`  the first of them, and the start of markup: the least corresponding offset
* `start`   the last of them, and the start of markup: where a range begins
* `stop`    the first of them, and the end of markup: where a range ends

so that a range neither starts nor ends with markup that contributes nothing, and a range that
touches an interpretation covers all of it.  Offsets past the end go to the end. -/

namespace ProseLens

/-- The text that a query's offsets count in. -/
inductive Axis where
  /-- Queries in the plain text, answered in the source. -/
  | plain
  /-- Queries in the source, answered in the plain text. -/
  | source
  deriving DecidableEq, Repr

namespace Axis

/-- The coordinate that queries are compared with. -/
def key : Axis → Breakpoint → Nat
  | plain, b => b.plain
  | source, b => b.source

/-- The coordinate that answers are taken from. -/
def other : Axis → Breakpoint → Nat
  | plain, b => b.source
  | source, b => b.plain

end Axis

/-- How shared offsets and the inside of markup resolve. -/
inductive Edge where
  /-- The least corresponding offset. -/
  | lowest
  /-- The start of a range. -/
  | start
  /-- The end of a range. -/
  | stop
  deriving DecidableEq, Repr

namespace AnnotatedText

/-- Walks on from breakpoint `low` through the spans after it and the breakpoints that close
    them. -/
def locate (axis : Axis) (edge : Edge) (offset : Nat) (low : Breakpoint) :
    List Span → List Breakpoint → Nat
  | span :: spans, high :: closings =>
    if edge ≠ .start ∧ offset ≤ axis.key low then axis.other low
    else if axis.key high ≤ offset then locate axis edge offset high spans closings
    else if span.isText then axis.other low + (offset - axis.key low)
    else if edge = .stop then axis.other high
    else axis.other low
  | _, _ => axis.other low

/-- The offset that corresponds to `offset` along `axis`. -/
def lookup (t : AnnotatedText) (axis : Axis) (edge : Edge) (offset : Nat) : Nat :=
  match t.breakpoints with
  | [] => 0
  | first :: closings => locate axis edge offset first t.spans closings

/-- The range that corresponds to the range from `start` to `stop` along `axis`.  It is never
    reversed, even if the query is. -/
def lookupRange (t : AnnotatedText) (axis : Axis) (start stop : Nat) : Nat × Nat :=
  let first := t.lookup axis .start start
  (first, max (t.lookup axis .stop stop) first)

/-- The least source offset that a plain offset corresponds to. -/
def sourceOffset (t : AnnotatedText) (plain : Nat) : Nat :=
  t.lookup .plain .lowest plain

/-- The same offset, counted from the start of the document. -/
def documentOffset (t : AnnotatedText) (plain : Nat) : Nat :=
  t.origin + t.sourceOffset plain

/-- The source range to highlight for a range of plain text. -/
def sourceRange (t : AnnotatedText) (start stop : Nat) : Nat × Nat :=
  t.lookupRange .plain start stop

/-- The least plain offset that a source offset corresponds to. -/
def plainOffset (t : AnnotatedText) (source : Nat) : Nat :=
  t.lookup .source .lowest source

/-- The plain range that a range of source gave. -/
def plainRange (t : AnnotatedText) (start stop : Nat) : Nat × Nat :=
  t.lookupRange .source start stop

/-- The plain text that a range of source gave; empty if that range of plain text would cut a
    character. -/
def plainSubstring (t : AnnotatedText) (start stop : Nat) : String :=
  let (first, last) := t.plainRange start stop
  (Text.slice? t.plain first last).getD ""

end AnnotatedText

end ProseLens
