import ProseLens.Extract.Stall

/-! # Events

What an extraction and the building of its registry report on the way. -/

namespace ProseLens

/-- How much an event matters. -/
inductive Level where
  /-- Something was not as it should be. -/
  | warn
  /-- Of use to someone who looks for a fault. -/
  | debug
  /-- The course of the work. -/
  | trace
  deriving DecidableEq, Repr

/-- The name by which reports call the level. -/
def Level.name : Level → String
  | warn => "WARN"
  | debug => "DEBUG"
  | trace => "TRACE"

/-- Something worth reporting. -/
inductive Event where
  /-- A command of the settings has an unknown action or no usable prototype. -/
  | unusableCommand (prototype action : String)
  /-- An environment of the settings has an unfit action or no usable prototype. -/
  | unusableEnvironment (prototype action : String)
  /-- A registry has been built with this many signatures. -/
  | registryBuilt (commands environments : Nat)
  /-- An ignored environment was read without knowing how it ends. -/
  | missingTerminator (position : Nat)
  /-- One character was skipped after a stall. -/
  | skipped (mode : Mode) (stall : Extract.Stall)
  /-- An extraction has come to its end. -/
  | finished (sourceLength spans placeholders : Nat)
  deriving DecidableEq, Repr

namespace Event

/-- How much the event matters. -/
def level : Event → Level
  | unusableCommand .. | unusableEnvironment .. | missingTerminator .. | skipped .. => .warn
  | registryBuilt .. => .debug
  | finished .. => .trace

/-- The event in words. -/
def message : Event → String
  | unusableCommand .. => "skipping unusable command signature"
  | unusableEnvironment .. => "skipping unusable environment signature"
  | registryBuilt .. => "built signature registry"
  | missingTerminator .. => "ignored environment without terminator"
  | skipped .. => "scanner made no progress, skipping one character"
  | finished .. => "scanned fragment"

end Event

end ProseLens
