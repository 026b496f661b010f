import ProseLens.Extract.Control
import ProseLens.Extract.Placeholder
import ProseLens.Token.Control

/-! # Extractors, and the openings and closings of environments -/

namespace ProseLens

/-- What an extraction is done with: the signatures it consults and its options. -/
structure Extractor where
  /-- The signatures. -/
  registry : Signature.Registry
  /-- The options. -/
  options : Options

namespace Extract

/-- The numbers of characters of the arguments that follow each other directly from the start of a
    text on. -/
def argumentRun : List Char → List Nat
  | [] => []
  | c :: cs =>
    match Signature.anyArgument? (c :: cs) with
    | none => []
    | some n => n :: argumentRun (cs.drop (n - 1))
termination_by cs => cs.length
decreasing_by
  simp only [List.length_drop, List.length_cons]
  omega

/-- All arguments that follow directly are markup. -/
def State.swallowArguments (s : State) : State :=
  (argumentRun s.rest).foldl State.markup s

/-- What belongs to the opening or closing of an environment in the source. -/
structure EnvironmentTag where
  /-- Number of characters of the control sequence. -/
  control : Nat
  /-- Number of characters of the name in braces, zero if the name is attached or missing. -/
  group : Nat
  /-- The name of the environment, empty if it is missing. -/
  name : List Char
  /-- How the environment would end if it were ignored. -/
  terminator : Terminator

/-- Reads the name of an environment at the start of a text that begins with a control sequence of
    `control` characters. -/
def EnvironmentTag.read (cs : List Char) (control : Nat) : Option (List Char) → EnvironmentTag
  | some name => ⟨control, 0, name, .attached name⟩
  | none =>
    let group := (Token.group? (cs.drop control)).getD 0
    let name := (cs.drop (control + 1)).take (group - 2)
    ⟨control, group, name, .braced name⟩

/-- Whether the body of the environment is a formula. -/
def EnvironmentTag.isMath (tag : EnvironmentTag) : Bool :=
  mathEnvironments.contains (String.ofList tag.name)

/-- After the control sequence of an opening or closing: the rest of the tag is markup that shows
    nothing in a formula. -/
def State.finishTag (s : State) (tag : EnvironmentTag) : State :=
  s.markTrivial.keepPending.markup tag.group

end Extract

namespace Extractor

open Extract

/-- Opens an environment that is no formula, as the best of its signatures says.  An ignored body is
    read in a mode of its own until its terminator; any other body in the current mode. -/
def openBody (x : Extractor) (s : State) (tag : EnvironmentTag) : State :=
  let opening := String.ofList (s.rest.take (tag.control + tag.group))
  match x.registry.environment? opening s.rest with
  | none => ((s.markup tag.control).push s.mode).finishTag tag |>.swallowArguments
  | some found =>
    let signature := found.signature
    if signature.action = .ignore then
      -- arguments of any number need not be told from a body that is ignored as well
      { s.push .ignoredEnvironment with terminator := some tag.terminator }.markup
        (if signature.ignoresAllArguments then tag.control else found.length)
    else if signature.ignoresAllArguments then
      ((s.push s.mode).markup tag.control).finishTag tag |>.swallowArguments
    else
      ((s.push s.mode).markup found.length).markTrivial.keepPending

/-- The opening of an environment. -/
def openEnvironment (x : Extractor) (s : State) (tag : EnvironmentTag) : State :=
  let s := s.keepPending
  if tag.isMath then
    let s := s.markup tag.control
    let s :=
      if String.ofList tag.name = inlineMathEnvironment then s.enterInlineMath
      else s.enterDisplayMath
    (s.finishTag tag).swallowArguments
  else x.openBody s tag

/-- The closing of an environment. -/
def closeEnvironment (x : Extractor) (s : State) (tag : EnvironmentTag) : State :=
  let s := s.keepPending
  if tag.isMath then
    -- the whole tag stands for the formula that it closes
    s.pop.markTrivial.replace (tag.control + tag.group) x.options.language .singular
  else
    ((s.markup tag.control).pop).finishTag tag

end Extractor

end ProseLens
