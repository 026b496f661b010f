import ProseLens.AnnotatedText.Basic
import ProseLens.Text.Quoted

/-! # Consistency of an annotated text

The fields of an annotated text say the same thing several times over.  `inconsistency?` compares
them with each other and with the source, and names the first disagreement. -/

namespace ProseLens.AnnotatedText

/-- A way in which an annotated text contradicts itself or its source. -/
inductive Inconsistency where
  /-- The span at `index` covers no source. -/
  | emptySpan (index : Nat)
  /-- The spans give `rebuilt` and not the source. -/
  | untiled (rebuilt source : String)
  /-- The spans contribute `contributed` and not the plain text. -/
  | drifted (contributed plain : String)
  /-- There is not one breakpoint per span plus the origin. -/
  | breakpointCount
  /-- A breakpoint stands before the one it follows. -/
  | decreasing (earlier later : Breakpoint)
  deriving DecidableEq, Repr

/-- A breakpoint as diagnoses show it. -/
def showBreakpoint (b : Breakpoint) : String :=
  "Breakpoint \x7b plain: " ++ toString b.plain ++ ", source: " ++ toString b.source ++ " \x7d"

/-- The diagnosis in words. -/
def Inconsistency.message : Inconsistency → String
  | emptySpan index => "span " ++ toString index ++ " has an empty raw slice"
  | untiled rebuilt source =>
    "spans do not tile the source: " ++ Text.quote rebuilt ++ " != " ++ Text.quote source
  | drifted contributed plain =>
    "plain text drifted: " ++ Text.quote contributed ++ " != " ++ Text.quote plain
  | breakpointCount => "one breakpoint per span plus the origin"
  | decreasing earlier later =>
    "mapping not monotone at " ++ showBreakpoint earlier ++ " -> " ++ showBreakpoint later

/-- The first breakpoint that stands before its predecessor in either coordinate, after that
    predecessor. -/
def firstDecrease? : List Breakpoint → Option (Breakpoint × Breakpoint)
  | earlier :: later :: more =>
    if later.plain < earlier.plain ∨ later.source < earlier.source then some (earlier, later)
    else firstDecrease? (later :: more)
  | _ => none

/-- The first disagreement among the fields of `t` and `source`; `none` if all agree. -/
def inconsistency? (t : AnnotatedText) (source : String) : Option Inconsistency :=
  let contributed := String.join (t.spans.map Span.plain)
  match t.spans.findIdx? (fun span => span.raw.isEmpty) with
  | some index => some (.emptySpan index)
  | none =>
    if t.sourceText ≠ source then some (.untiled t.sourceText source)
    else if contributed ≠ t.plain then some (.drifted contributed t.plain)
    else if t.breakpoints.length ≠ t.spans.length + 1 then some .breakpointCount
    else (firstDecrease? t.breakpoints).map fun (earlier, later) => .decreasing earlier later

end ProseLens.AnnotatedText
