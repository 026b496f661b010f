/-! # What an extraction remembers

Between one construct and the next an extraction remembers three things: how the plain text ends
(`Trailing`), what was seen in a formula and waits for the placeholder of that formula (`Pending`),
and how far the formula has come (`Formula`). -/

namespace ProseLens.Extract

/-- Punctuation that ends a clause or a sentence. -/
def isPunctuation (c : Char) : Bool :=
  c == '.' || c == ',' || c == ':' || c == ';' || c == '\u2026'

/-- Letters whose English name begins with a vowel sound. -/
def hasVowelName (c : Char) : Bool :=
  ['a', 'e', 'f', 'h', 'i', 'l', 'm', 'n', 'o', 'r', 's', 'x'].contains c.toLower

/-- How the plain text ends. -/
structure Trailing where
  /-- It ends with a space or a line break. -/
  space : Bool := false
  /-- It ends with punctuation. -/
  punctuation : Bool := false
  deriving DecidableEq, Repr, Inhabited

/-- How a plain text ends that ends with `c`. -/
def Trailing.ofChar (c : Char) : Trailing where
  space := c == ' ' || c == '\n' || c == '\r'
  punctuation := isPunctuation c

/-- How the plain text ends after `added` has been added to it. -/
def Trailing.after (trailing : Trailing) (added : List Char) : Trailing :=
  match added.getLast? with
  | some c => .ofChar c
  | none => trailing

/-- What the next placeholder takes over from its formula. -/
structure Pending where
  /-- A space after the word. -/
  space : Bool := false
  /-- Punctuation after the word. -/
  punctuation : Option Char := none
  /-- Both survive the next markup. -/
  kept : Bool := false
  deriving DecidableEq, Repr, Inhabited

/-- Nothing waits any more; whether the next markup spares what waits is left as it is. -/
def Pending.clear (pending : Pending) : Pending :=
  { pending with space := false, punctuation := none }

/-- What is left after markup that is not read as anything. -/
def Pending.afterMarkup (pending : Pending) : Pending :=
  if pending.kept then { pending with kept := false } else pending.clear

/-- What the first token of a formula begins with. -/
inductive Lead where
  /-- There is no such token yet. -/
  | undecided
  /-- A vowel sound. -/
  | vowel
  /-- A consonant sound. -/
  | consonant
  deriving DecidableEq, Repr, Inhabited

/-- The name by which reports call the lead. -/
def Lead.name : Lead → String
  | undecided => "Undecided"
  | vowel => "Vowel"
  | consonant => "Consonant"

/-- The lead after a token that begins with a vowel sound or not: the first token decides. -/
def Lead.orElse (lead : Lead) (next : Lead) : Lead :=
  match lead with
  | undecided => next
  | decided => decided

/-- How far a formula has come. -/
structure Formula where
  /-- It has shown nothing yet. -/
  empty : Bool := false
  /-- What its first token begins with. -/
  lead : Lead := .undecided
  /-- A space command would still stand before its placeholder. -/
  spaceBefore : Bool := false
  deriving DecidableEq, Repr, Inhabited

/-- A formula that has just been entered. -/
def Formula.entered : Formula := ⟨true, .undecided, true⟩

end ProseLens.Extract
