import ProseLens.Extract.Environment
import ProseLens.Token.Accent

/-! # What begins with a backslash -/

namespace ProseLens.Extractor

open Extract

/-- A space.  In prose it is read as itself unless a space is there already; in a formula it stands
    before the placeholder if the formula has just begun, and waits for the placeholder if not. -/
def space (s : State) (n : Nat) (read : String) : State :=
  if s.mode.isMath then
    if !s.trailing.space && s.formula.spaceBefore then s.markupAs n " "
    else (s.keepPending.markup n).awaitSpace
  else s.keepPending.markupAs n (if s.trailing.space then "" else read)

/-- A short title in brackets is markup. -/
def shortTitle (s : State) : State :=
  match Signature.argument? .bracket s.rest with
  | some n => s.markup n
  | none => s

/-- The title of a section in braces is read in a mode of its own. -/
def title (s : State) : State :=
  if s.rest.head? = some '{' then (s.push .heading).markup 1 else s

/-- The command before a title. -/
def heading (s : State) (n : Nat) : State :=
  title (shortTitle (s.markup n))

/-- The command before prose inside a formula.  What came before it in the formula gets its
    placeholder here. -/
def inlineText (x : Extractor) (s : State) (n : Nat) : State :=
  if (s.rest.drop n).head? = some '{' then
    let s := s.push .inlineText
    if s.mode.isMath then s.replace (n + 1) x.options.language .singular else s.markup (n + 1)
  else s.markup n

/-- The lead of a formula after a command without a meaning of its own. -/
def leadAfter (lead : Lead) (name : String) : Lead :=
  if vowelInMath.contains name then lead.orElse .vowel
  else if transparentInMath.contains name then lead
  else lead.orElse .consonant

/-- A command that is left to the signatures. -/
def command (x : Extractor) (s : State) (token : List Char) : State :=
  let name := String.ofList token
  -- what no signature claims still counts as the first sound of a formula
  let plain :=
    let lead := if s.mode.isMath then leadAfter s.formula.lead name else s.formula.lead
    { s with formula := { s.formula with lead } }.markup token.length
  match x.registry.command? name s.rest with
  | none => plain
  | some found =>
    match found.signature.action with
    | .ignore => s.markup found.length
    | .placeholder p => s.replace found.length x.options.language p
    | .default => plain

/-- A control sequence. -/
def control (x : Extractor) (s : State) (token : List Char) : State :=
  let n := token.length
  let inProse (read : String) := if s.mode.isMath then "" else read
  match Control.ofToken token with
  | .opening attached => x.openEnvironment s (.read s.rest n attached)
  | .closing attached => x.closeEnvironment s (.read s.rest n attached)
  | .escaped c => s.markupAs n c.toString
  | .displayMath => s.enterDisplayMath.markup n
  | .inlineMath => s.enterInlineMath.markup n
  | .mathEnd => s.pop.replace n x.options.language .singular
  | .hyphenation => s.markup n
  | .mark => s.keepPending.markup n
  | .inlineText => x.inlineText s n
  | .verbatim =>
    match Token.verbatim? s.rest with
    | some length => s.replace length x.options.language .singular
    | none => s.markup n
  | .accent =>
    match if s.mode.isMath then none else Token.accent? s.rest with
    | some accent => s.markupAs accent.length (Token.Accent.compose accent.mark accent.base)
    | none => s.markup n
  | .space read measured =>
    space s (n + if measured then (Token.group? (s.rest.drop n)).getD 0 else 0) read
  | .heading => heading s n
  | .word read => s.markupAs n (inProse read)
  | .other => x.command s token

/-- What begins with a backslash.  A backslash at the end of the source is not consumed. -/
def backslash (x : Extractor) (s : State) : State :=
  match Token.control? s.rest with
  | some n => x.control s (s.rest.take n)
  | none => s

end ProseLens.Extractor
