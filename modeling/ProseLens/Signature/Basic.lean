import ProseLens.Placeholder

/-! # Signatures

A signature describes a command or an environment: its name, the arguments it takes, and what
becomes of it.  Several signatures may share a name and differ in their arguments. -/

namespace ProseLens.Signature

/-- The pair of delimiters around an argument. -/
inductive Delimiter where
  /-- Braces. -/
  | brace
  /-- Square brackets. -/
  | bracket
  /-- Parentheses. -/
  | parenthesis
  deriving DecidableEq, Repr, Inhabited

namespace Delimiter

/-- The opening delimiter. -/
def opening : Delimiter → Char
  | brace => '{'
  | bracket => '['
  | parenthesis => '('

/-- The closing delimiter. -/
def closing : Delimiter → Char
  | brace => '}'
  | bracket => ']'
  | parenthesis => ')'

/-- Both delimiters with nothing between them. -/
def pair (d : Delimiter) : List Char := [d.opening, d.closing]

/-- The kind of argument that two characters delimit. -/
def ofPair? : (opening closing : Char) → Option Delimiter
  | '{', '}' => some brace
  | '[', ']' => some bracket
  | '(', ')' => some parenthesis
  | _, _ => none

/-- All kinds of argument. -/
def all : List Delimiter := [brace, bracket, parenthesis]

/-- A delimiter is found again from its two characters. -/
@[simp] theorem ofPair?_opening_closing (d : Delimiter) :
    ofPair? d.opening d.closing = some d := by
  cases d <;> rfl

/-- A delimiter that is found from two characters is written with them. -/
theorem pair_of_ofPair? {opening closing : Char} {d : Delimiter}
    (h : ofPair? opening closing = some d) : d.pair = [opening, closing] := by
  unfold ofPair? at h
  split at h
  all_goals first | cases h; rfl | cases h

end Delimiter

/-- What becomes of a command or an environment that matches a signature. -/
inductive Action where
  /-- The name is markup and the arguments are read as usual. -/
  | default
  /-- Name and arguments leave no trace. -/
  | ignore
  /-- Name and arguments are read as one placeholder word. -/
  | placeholder (word : Placeholder)
  deriving DecidableEq, Repr, Inhabited

/-- The action that settings call by this name. -/
def Action.ofSetting? : String → Option Action
  | "default" => some .default
  | "ignore" => some .ignore
  | "dummy" => some (.placeholder .singular)
  | "pluralDummy" => some (.placeholder .several)
  | "vowelDummy" => some (.placeholder .vocalic)
  | _ => none

/-- A command with the arguments it takes. -/
structure Command where
  /-- The name as it stands in the source, with its backslash. -/
  name : String
  /-- The arguments in order. -/
  arguments : List Delimiter
  /-- What becomes of it. -/
  action : Action
  deriving DecidableEq, Repr, Inhabited

/-- An environment with the arguments that its opening takes. -/
structure Environment where
  /-- The name of the environment. -/
  name : String
  /-- The command that opens it; the name of that command includes the environment's. -/
  opening : Command
  /-- All arguments after the opening are swallowed, however many there are. -/
  ignoresAllArguments : Bool
  deriving DecidableEq, Repr, Inhabited

/-- What becomes of the environment. -/
def Environment.action (e : Environment) : Action := e.opening.action

end ProseLens.Signature
