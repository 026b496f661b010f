import ProseLens.Text.Front

/-! # Blanks and comments

Recognizers of blank source.  As everywhere in `Token`, a recognizer looks at the start of a text
and answers how many characters it accepts there, and it never accepts zero. -/

namespace ProseLens.Token

/-- A character that ends a line. -/
def isLineEnd (c : Char) : Bool := c == '\n' || c == '\r'

/-- A space, a tab or a character that ends a line. -/
def isBlank (c : Char) : Bool := c == ' ' || c == '\t' || isLineEnd c

/-- A comment: from the percent sign to the end of its line, with the line break and all blanks
    after it.  On the last line it runs to the end of the text. -/
def comment? : List Char → Option Nat
  | '%' :: cs =>
    let line := cs.takeWhile fun c => !isLineEnd c
    let after := cs.dropWhile fun c => !isLineEnd c
    some (1 + line.length + (after.takeWhile isBlank).length)
  | _ => none

/-- The number of characters of a comment at the start of the text, zero if there is none. -/
def commentLength (cs : List Char) : Nat := (comment? cs).getD 0

/-- A run of blanks, with the comment that directly follows it. -/
def blanks? (cs : List Char) : Option Nat :=
  let run := (cs.takeWhile isBlank).length
  if run = 0 then none else some (run + commentLength (cs.drop run))

/-- Whether two line breaks of one kind follow each other directly. -/
def hasBlankLine : List Char → Bool
  | [] => false
  | c :: cs =>
    Text.startsWith (c :: cs) ['\n', '\n'] || Text.startsWith (c :: cs) ['\r', '\n', '\r', '\n']
      || Text.startsWith (c :: cs) ['\r', '\r'] || hasBlankLine cs

/-- The rest of a text after the longest beginning of one class. -/
theorem drop_length_takeWhile (p : Char → Bool) (cs : List Char) :
    cs.drop (cs.takeWhile p).length = cs.dropWhile p := by
  have hsplit := List.takeWhile_append_dropWhile (p := p) (l := cs)
  calc cs.drop (cs.takeWhile p).length
      = (cs.takeWhile p ++ cs.dropWhile p).drop (cs.takeWhile p).length := by rw [hsplit]
    _ = cs.dropWhile p := List.drop_left

/-- A comment begins with a percent sign. -/
theorem comment?_of_head?_ne {cs : List Char} (h : cs.head? ≠ some '%') :
    comment? cs = none := by
  unfold comment?
  split
  · exact absurd rfl h
  · rfl

/-- A comment takes its percent sign at least. -/
theorem comment?_pos {cs : List Char} {n : Nat} (h : comment? cs = some n) : 0 < n := by
  unfold comment? at h
  split at h
  · obtain rfl := Option.some.inj h
    omega
  · cases h

/-- A run of blanks that is found is not empty. -/
theorem blanks?_pos {cs : List Char} {n : Nat} (h : blanks? cs = some n) : 0 < n := by
  simp only [blanks?] at h
  split at h
  · cases h
  · obtain rfl := Option.some.inj h
    omega

/-- Where a percent sign is taken for want of a comment, there is still something taken. -/
theorem comment?_getD_pos (cs : List Char) : 0 < (comment? cs).getD 1 := by
  cases h : comment? cs with
  | none => exact Nat.one_pos
  | some n => exact comment?_pos h

/-- Where a blank is taken for want of a run, there is still something taken. -/
theorem blanks?_getD_pos (cs : List Char) : 0 < (blanks? cs).getD 1 := by
  cases h : blanks? cs with
  | none => exact Nat.one_pos
  | some n => exact blanks?_pos h

end ProseLens.Token
