import ProseLens.Extract.Flags
import ProseLens.Mode
import ProseLens.Text.Bytes
import ProseLens.Text.Quoted

/-! # Stalls

An extraction stalls where it finds nothing to consume.  A `Stall` is the report on that moment,
with as much of the source on either side as `contextBytes` bytes reach. -/

namespace ProseLens.Extract

/-- The state of an extraction that found nothing to consume. -/
structure Stall where
  /-- Byte offset of the reading position. -/
  position : Nat
  /-- The modes, outermost first. -/
  modes : List Mode
  /-- How the plain text ends. -/
  trailing : Trailing
  /-- How far the formula has come. -/
  formula : Formula
  /-- The number of placeholders so far. -/
  placeholders : Nat
  /-- The source around the reading position. -/
  surroundings : String
  deriving DecidableEq, Repr

namespace Stall

/-- The number of bytes of source that are shown on either side. -/
def contextBytes : Nat := 32

/-- The source around the boundary between `before` and `after`.  Each side reaches as far as
    `contextBytes` bytes, and on to the end of the character where that falls inside one. -/
def context (before after : List Char) : String :=
  String.ofList
    ((Text.cover before.reverse contextBytes).reverse ++ Text.cover after contextBytes)

/-- A truth value as reports write it. -/
def showBool (b : Bool) : String := if b then "true" else "false"

/-- The report in words. -/
def describe (stall : Stall) : String :=
  "at byte " ++ toString stall.position ++
  " in [" ++ ", ".intercalate (stall.modes.map Mode.name) ++ "]" ++
  " (last_space=" ++ showBool stall.trailing.space ++
  ", last_punctuation=" ++ showBool stall.trailing.punctuation ++
  ", math_empty=" ++ showBool stall.formula.empty ++
  ", space_before_placeholder=" ++ showBool stall.formula.spaceBefore ++
  ", math_vowel=" ++ stall.formula.lead.name ++
  ", placeholders=" ++ toString stall.placeholders ++
  ") near " ++ Text.quote stall.surroundings

/-- The error message for a stall. -/
def message (stall : Stall) : String := "scanner stalled " ++ stall.describe

end Stall

end ProseLens.Extract
