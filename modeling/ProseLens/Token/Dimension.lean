import ProseLens.Text.Front

/-! # Dimensions

A dimension between delimiters: an optional sign, any number of digits, optionally a point with at
least one digit after it, and a unit.  The digits may be missing altogether. -/

namespace ProseLens.Token

/-- The units of length. -/
def units : List (List Char) :=
  [['p', 't'], ['m', 'm'], ['c', 'm'], ['e', 'x'], ['e', 'm'], ['b', 'p'], ['d', 'd'], ['p', 'c'],
    ['i', 'n']]

/-- The number of digits at the start of a text. -/
def digitRun (cs : List Char) : Nat := (cs.takeWhile Char.isDigit).length

/-- The number of minus signs at the start of a text, at most one. -/
def signLength (cs : List Char) : Nat := if cs.head? = some '-' then 1 else 0

/-- The number of characters of a decimal fraction at the start of a text, zero if there is none. -/
def fractionLength : List Char → Nat
  | '.' :: cs => if digitRun cs = 0 then 0 else 1 + digitRun cs
  | _ => 0

/-- The number of characters before the unit. -/
def quantityLength (cs : List Char) : Nat :=
  let sign := signLength cs
  let whole := digitRun (cs.drop sign)
  sign + whole + fractionLength (cs.drop (sign + whole))

/-- A dimension between the two delimiters. -/
def dimension? (opening closing : Char) : List Char → Option Nat
  | [] => none
  | c :: cs =>
    let quantity := quantityLength cs
    let unit := cs.drop quantity
    if c = opening ∧ units.any (Text.startsWith unit) ∧ (unit.drop 2).head? = some closing then
      some (quantity + 4)
    else none

/-- A fraction begins with a point. -/
theorem fractionLength_of_head?_ne {cs : List Char} (h : cs.head? ≠ some '.') :
    fractionLength cs = 0 := by
  unfold fractionLength
  split
  · exact absurd rfl h
  · rfl

/-- A length takes its delimiters at least. -/
theorem dimension?_pos {opening closing : Char} {cs : List Char} {n : Nat}
    (h : dimension? opening closing cs = some n) : 0 < n := by
  unfold dimension? at h
  split at h
  · cases h
  · dsimp only at h
    split at h
    · obtain rfl := Option.some.inj h
      omega
    · cases h

end ProseLens.Token
