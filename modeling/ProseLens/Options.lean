/-! # Options of an extraction -/

namespace ProseLens

/-- The dialect that a source is written in. -/
inductive Dialect where
  /-- Markup and prose only. -/
  | latex
  /-- Markup and prose with embedded chunks of code. -/
  | rsweave
  deriving DecidableEq, Repr, Inhabited

/-- The dialect that settings call by this name. -/
def Dialect.ofName? : String → Option Dialect
  | "latex" => some latex
  | "rsweave" => some rsweave
  | _ => none

/-- The name by which settings call the dialect. -/
def Dialect.name : Dialect → String
  | latex => "latex"
  | rsweave => "rsweave"

/-- What an extraction depends on besides the signatures.  The defaults are those of a build for
    tests or fuzzing: in any other build an extraction is lenient unless `strict` is set. -/
structure Options where
  /-- The language code; its first subtag chooses the placeholder words. -/
  language : String := "en-US"
  /-- The dialect of the source. -/
  dialect : Dialect := .latex
  /-- A stall is an error; otherwise it is reported and one character is skipped.  On by default
      only in builds for tests and fuzzing, which are to find every stall. -/
  strict : Bool := true
  deriving DecidableEq, Repr, Inhabited

end ProseLens
