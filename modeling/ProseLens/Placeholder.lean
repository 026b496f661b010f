/-! # Placeholders

A citation or a formula that is taken out of a sentence would leave a hole in it.  A placeholder
word stands in: a made-up name with a number, so that every placeholder of a document is a word of
its own.  The word depends on what it stands for and on the language of the document. -/

namespace ProseLens

/-- What a placeholder stands for. -/
structure Placeholder where
  /-- It stands for several things. -/
  plural : Bool := false
  /-- It begins with a vowel, whatever it stands for begins with. -/
  vowel : Bool := false
  deriving DecidableEq, Repr, Inhabited

namespace Placeholder

/-- One thing, whose own beginning decides about the vowel. -/
def singular : Placeholder := {}

/-- Several things. -/
def several : Placeholder := { plural := true }

/-- One thing that begins with a vowel. -/
def vocalic : Placeholder := { vowel := true }

/-- The first subtag of a language code, in ASCII lower case. -/
def primarySubtag (language : String) : List Char :=
  (language.toList.takeWhile fun c => c != '-' && c != '_').map Char.toLower

/-- The made-up name before the number.  French has one name for all, hyphenated: it needs no
    article and no agreement. -/
def stem (p : Placeholder) (language : String) (leadsWithVowel : Bool) : String :=
  if primarySubtag language = ['f', 'r'] then "Jimmy-"
  else if p.plural then "Dummies"
  else if p.vowel || leadsWithVowel then "Ina"
  else "Dummy"

/-- The placeholder word with the given number. -/
def word (p : Placeholder) (language : String) (number : Nat) (leadsWithVowel : Bool) : String :=
  p.stem language leadsWithVowel ++ toString number

/-- All names that placeholder words begin with. -/
def stems : List String := ["Dummies", "Dummy", "Ina", "Jimmy-"]

/-- Every placeholder word is made of one of the stems, in any language and in front of any word. -/
theorem stem_mem_stems (p : Placeholder) (language : String) (leadsWithVowel : Bool) :
    p.stem language leadsWithVowel ∈ stems := by
  unfold stem stems
  repeat' split
  all_goals simp

end Placeholder

end ProseLens
