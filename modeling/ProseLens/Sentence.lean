import ProseLens.Placeholder
import ProseLens.Text.Front

/-! # Shapes of sentences

Two sentences that differ only in their placeholders have the same shape.  `Sentence.shape` reads a
sentence from the left as a list of symbols, each an ordinary character or a whole placeholder
word; `Shape.pattern` writes the shape as an anchored regular expression, and `Shape.accepts`
decides the language of that expression.  A matcher of regular expressions is not modelled: it is
taken to decide the language of what it is given, and so answers what `Shape.matches` answers. -/

namespace ProseLens

namespace Sentence

/-- One symbol of a shape. -/
inductive Symbol where
  /-- This character. -/
  | char (c : Char)
  /-- Any placeholder word. -/
  | placeholder
  deriving DecidableEq, Repr

/-- A sentence up to the choice of its placeholder words. -/
abbrev Shape := List Symbol

/-- A decimal digit; all digits of placeholder words are ASCII. -/
def isDigit (c : Char) : Bool := '0' ≤ c && c ≤ '9'

/-- The number of characters of the placeholder word that the text begins with: one of the stems
    and all digits after it, of which there is at least one. -/
def placeholderLength? (cs : List Char) : Option Nat :=
  Placeholder.stems.findSome? fun stem =>
    match Text.stripFront? stem.toList cs with
    | none => none
    | some rest =>
      let digits := (rest.takeWhile isDigit).length
      if 0 < digits then some (stem.length + digits) else none

/-- The shape of a sentence: placeholder words are found from the left, each as long as can be. -/
def shapeOf : List Char → Shape
  | [] => []
  | c :: rest =>
    match placeholderLength? (c :: rest) with
    | some n => .placeholder :: shapeOf (rest.drop (n - 1))
    | none => .char c :: shapeOf rest
termination_by cs => cs.length
decreasing_by
  · simp only [List.length_drop, List.length_cons]
    omega
  · simp

/-- The shape of a sentence. -/
def shape (sentence : String) : Shape := shapeOf sentence.toList

/-- Characters with a meaning of their own in a regular expression. -/
def isMetacharacter (c : Char) : Bool :=
  "\\.+*?()|[]\x7b\x7d^$#&-~".toList.contains c

/-- The regular expression for any placeholder word. -/
def placeholderPattern : String := "(?:Dummies|Dummy|Ina|Jimmy-)[0-9]+"

/-- The regular expression for one symbol. -/
def Symbol.pattern : Symbol → String
  | char c => if isMetacharacter c then "\\" ++ c.toString else c.toString
  | placeholder => placeholderPattern

/-- The regular expression for the sentences of a shape, from start to end. -/
def Shape.pattern (shape : Shape) : String :=
  "^" ++ String.join (shape.map Symbol.pattern) ++ "$"

/-- The texts that can follow a placeholder word at the start of `cs`, one for each number of
    digits that the word may have. -/
def afterPlaceholder (cs : List Char) : List (List Char) :=
  Placeholder.stems.flatMap fun stem =>
    match Text.stripFront? stem.toList cs with
    | none => []
    | some rest => (List.range (rest.takeWhile isDigit).length).map fun k => rest.drop (k + 1)

/-- Whether the text belongs to the language of the shape's regular expression. -/
def Shape.accepts : Shape → List Char → Bool
  | [], cs => cs.isEmpty
  | .char c :: shape, d :: cs => c == d && accepts shape cs
  | .char _ :: _, [] => false
  | .placeholder :: shape, cs => (afterPlaceholder cs).any fun rest => accepts shape rest

/-- Whether `sentence` has the shape. -/
def Shape.matches (shape : Shape) (sentence : String) : Bool :=
  shape.accepts sentence.toList

end Sentence

end ProseLens
