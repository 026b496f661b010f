import ProseLens.Text.Front

/-! # Accents

An accent command is a backslash and a mark, applied to a base: a letter, or the dotless i or j.
The base may follow directly, after spaces, or in braces.  A mark that is itself a letter and is
directly followed by a letter is the beginning of a longer command and no accent.

`compose` puts the mark on the base: as one character where there is one, and else as the base with
a combining mark after it. -/

namespace ProseLens.Token

/-- An accent that was recognized. -/
structure Accent where
  /-- Number of characters. -/
  length : Nat
  /-- The character that names the mark. -/
  mark : Char
  /-- The character that carries the mark. -/
  base : Char
  deriving DecidableEq, Repr

namespace Accent

/-- The marks: the character that names each, its combining character, and the characters that
    stand for a letter with the mark on it. -/
def marks : List (Char × Char × List (Char × Char)) :=
  [('\x60', '\u0300',
      [('A', 'À'), ('E', 'È'), ('I', 'Ì'), ('N', 'Ǹ'), ('O', 'Ò'), ('U', 'Ù'), ('W', 'Ẁ'),
       ('Y', 'Ỳ'), ('a', 'à'), ('e', 'è'), ('i', 'ì'), ('n', 'ǹ'), ('o', 'ò'), ('u', 'ù'),
       ('w', 'ẁ'), ('y', 'ỳ')]),
   ('\x27', '\u0301',
      [('A', 'Á'), ('C', 'Ć'), ('E', 'É'), ('G', 'Ǵ'), ('I', 'Í'), ('K', 'Ḱ'), ('L', 'Ĺ'),
       ('M', 'Ḿ'), ('N', 'Ń'), ('O', 'Ó'), ('P', 'Ṕ'), ('R', 'Ŕ'), ('S', 'Ś'), ('U', 'Ú'),
       ('W', 'Ẃ'), ('Y', 'Ý'), ('Z', 'Ź'), ('a', 'á'), ('c', 'ć'), ('e', 'é'), ('g', 'ǵ'),
       ('i', 'í'), ('k', 'ḱ'), ('l', 'ĺ'), ('m', 'ḿ'), ('n', 'ń'), ('o', 'ó'), ('p', 'ṕ'),
       ('r', 'ŕ'), ('s', 'ś'), ('u', 'ú'), ('w', 'ẃ'), ('y', 'ý'), ('z', 'ź')]),
   ('^', '\u0302',
      [('A', 'Â'), ('C', 'Ĉ'), ('E', 'Ê'), ('G', 'Ĝ'), ('H', 'Ĥ'), ('I', 'Î'), ('J', 'Ĵ'),
       ('O', 'Ô'), ('S', 'Ŝ'), ('U', 'Û'), ('W', 'Ŵ'), ('Y', 'Ŷ'), ('Z', 'Ẑ'), ('a', 'â'),
       ('c', 'ĉ'), ('e', 'ê'), ('g', 'ĝ'), ('h', 'ĥ'), ('i', 'î'), ('j', 'ĵ'), ('o', 'ô'),
       ('s', 'ŝ'), ('u', 'û'), ('w', 'ŵ'), ('y', 'ŷ'), ('z', 'ẑ')]),
   ('~', '\u0303',
      [('A', 'Ã'), ('E', 'Ẽ'), ('I', 'Ĩ'), ('N', 'Ñ'), ('O', 'Õ'), ('U', 'Ũ'), ('V', 'Ṽ'),
       ('Y', 'Ỹ'), ('a', 'ã'), ('e', 'ẽ'), ('i', 'ĩ'), ('n', 'ñ'), ('o', 'õ'), ('u', 'ũ'),
       ('v', 'ṽ'), ('y', 'ỹ')]),
   ('\x22', '\u0308',
      [('A', 'Ä'), ('E', 'Ë'), ('H', 'Ḧ'), ('I', 'Ï'), ('O', 'Ö'), ('U', 'Ü'), ('W', 'Ẅ'),
       ('X', 'Ẍ'), ('Y', 'Ÿ'), ('a', 'ä'), ('e', 'ë'), ('h', 'ḧ'), ('i', 'ï'), ('o', 'ö'),
       ('t', 'ẗ'), ('u', 'ü'), ('w', 'ẅ'), ('x', 'ẍ'), ('y', 'ÿ')]),
   ('=', '\u0304',
      [('A', 'Ā'), ('E', 'Ē'), ('G', 'Ḡ'), ('I', 'Ī'), ('O', 'Ō'), ('U', 'Ū'), ('Y', 'Ȳ'),
       ('a', 'ā'), ('e', 'ē'), ('g', 'ḡ'), ('i', 'ī'), ('o', 'ō'), ('u', 'ū'), ('y', 'ȳ')]),
   ('.', '\u0307',
      [('A', 'Ȧ'), ('B', 'Ḃ'), ('C', 'Ċ'), ('D', 'Ḋ'), ('E', 'Ė'), ('F', 'Ḟ'), ('G', 'Ġ'),
       ('H', 'Ḣ'), ('I', 'İ'), ('M', 'Ṁ'), ('N', 'Ṅ'), ('O', 'Ȯ'), ('P', 'Ṗ'), ('R', 'Ṙ'),
       ('S', 'Ṡ'), ('T', 'Ṫ'), ('W', 'Ẇ'), ('X', 'Ẋ'), ('Y', 'Ẏ'), ('Z', 'Ż'), ('a', 'ȧ'),
       ('b', 'ḃ'), ('c', 'ċ'), ('d', 'ḋ'), ('e', 'ė'), ('f', 'ḟ'), ('g', 'ġ'), ('h', 'ḣ'),
       ('m', 'ṁ'), ('n', 'ṅ'), ('o', 'ȯ'), ('p', 'ṗ'), ('r', 'ṙ'), ('s', 'ṡ'), ('t', 'ṫ'),
       ('w', 'ẇ'), ('x', 'ẋ'), ('y', 'ẏ'), ('z', 'ż')]),
   ('H', '\u030b',
      [('O', 'Ő'), ('U', 'Ű'), ('o', 'ő'), ('u', 'ű')]),
   ('b', '\u0331',
      [('B', 'Ḇ'), ('D', 'Ḏ'), ('K', 'Ḵ'), ('L', 'Ḻ'), ('N', 'Ṉ'), ('R', 'Ṟ'), ('T', 'Ṯ'),
       ('Z', 'Ẕ'), ('b', 'ḇ'), ('d', 'ḏ'), ('h', 'ẖ'), ('k', 'ḵ'), ('l', 'ḻ'), ('n', 'ṉ'),
       ('r', 'ṟ'), ('t', 'ṯ'), ('z', 'ẕ')]),
   ('c', '\u0327',
      [('C', 'Ç'), ('D', 'Ḑ'), ('E', 'Ȩ'), ('G', 'Ģ'), ('H', 'Ḩ'), ('K', 'Ķ'), ('L', 'Ļ'),
       ('N', 'Ņ'), ('R', 'Ŗ'), ('S', 'Ş'), ('T', 'Ţ'), ('c', 'ç'), ('d', 'ḑ'), ('e', 'ȩ'),
       ('g', 'ģ'), ('h', 'ḩ'), ('k', 'ķ'), ('l', 'ļ'), ('n', 'ņ'), ('r', 'ŗ'), ('s', 'ş'),
       ('t', 'ţ')]),
   ('d', '\u0323',
      [('A', 'Ạ'), ('B', 'Ḅ'), ('D', 'Ḍ'), ('E', 'Ẹ'), ('H', 'Ḥ'), ('I', 'Ị'), ('K', 'Ḳ'),
       ('L', 'Ḷ'), ('M', 'Ṃ'), ('N', 'Ṇ'), ('O', 'Ọ'), ('R', 'Ṛ'), ('S', 'Ṣ'), ('T', 'Ṭ'),
       ('U', 'Ụ'), ('V', 'Ṿ'), ('W', 'Ẉ'), ('Y', 'Ỵ'), ('Z', 'Ẓ'), ('a', 'ạ'), ('b', 'ḅ'),
       ('d', 'ḍ'), ('e', 'ẹ'), ('h', 'ḥ'), ('i', 'ị'), ('k', 'ḳ'), ('l', 'ḷ'), ('m', 'ṃ'),
       ('n', 'ṇ'), ('o', 'ọ'), ('r', 'ṛ'), ('s', 'ṣ'), ('t', 'ṭ'), ('u', 'ụ'), ('v', 'ṿ'),
       ('w', 'ẉ'), ('y', 'ỵ'), ('z', 'ẓ')]),
   ('k', '\u0328',
      [('A', 'Ą'), ('E', 'Ę'), ('I', 'Į'), ('O', 'Ǫ'), ('U', 'Ų'), ('a', 'ą'), ('e', 'ę'),
       ('i', 'į'), ('o', 'ǫ'), ('u', 'ų')]),
   ('r', '\u030a',
      [('A', 'Å'), ('U', 'Ů'), ('a', 'å'), ('u', 'ů'), ('w', 'ẘ'), ('y', 'ẙ')]),
   ('u', '\u0306',
      [('A', 'Ă'), ('E', 'Ĕ'), ('G', 'Ğ'), ('I', 'Ĭ'), ('O', 'Ŏ'), ('U', 'Ŭ'), ('a', 'ă'),
       ('e', 'ĕ'), ('g', 'ğ'), ('i', 'ĭ'), ('o', 'ŏ'), ('u', 'ŭ')]),
   ('v', '\u030c',
      [('A', 'Ǎ'), ('C', 'Č'), ('D', 'Ď'), ('E', 'Ě'), ('G', 'Ǧ'), ('H', 'Ȟ'), ('I', 'Ǐ'),
       ('K', 'Ǩ'), ('L', 'Ľ'), ('N', 'Ň'), ('O', 'Ǒ'), ('R', 'Ř'), ('S', 'Š'), ('T', 'Ť'),
       ('U', 'Ǔ'), ('Z', 'Ž'), ('a', 'ǎ'), ('c', 'č'), ('d', 'ď'), ('e', 'ě'), ('g', 'ǧ'),
       ('h', 'ȟ'), ('i', 'ǐ'), ('j', 'ǰ'), ('k', 'ǩ'), ('l', 'ľ'), ('n', 'ň'), ('o', 'ǒ'),
       ('r', 'ř'), ('s', 'š'), ('t', 'ť'), ('u', 'ǔ'), ('z', 'ž')])]

/-- Whether a character names a mark. -/
def isMark (c : Char) : Bool := marks.any (·.1 == c)

/-- The base of an accent at the start of a text, with its number of characters. -/
def base? : List Char → Option (Char × Nat)
  | '\\' :: 'i' :: _ => some ('\u0131', 2)
  | '\\' :: 'j' :: _ => some ('\u0237', 2)
  | c :: _ => if c.isAlpha then some (c, 1) else none
  | [] => none

/-- `base` with the named mark on it. -/
def compose (mark base : Char) : String :=
  match marks.find? (·.1 == mark) with
  | none => base.toString
  | some (_, combining, composed) =>
    match composed.lookup base with
    | some c => c.toString
    | none => String.ofList [base, combining]

end Accent

/-- The base of an accent in braces, with the number of characters including the braces. -/
def bracedBase? : List Char → Option (Char × Nat)
  | '{' :: inner =>
    match Accent.base? inner with
    | some (base, n) => if (inner.drop n).head? = some '}' then some (base, n + 2) else none
    | none => none
  | _ => none

/-- An accent command with its base. -/
def accent? : List Char → Option Accent
  | '\\' :: mark :: argument =>
    let spaces := (argument.takeWhile (· == ' ')).length
    let glued := mark.isAlpha && spaces == 0 && argument.head?.any Char.isAlpha
    let bare := if glued then none else Accent.base? (argument.drop spaces)
    if Accent.isMark mark then
      match bare with
      | some (base, n) => some ⟨2 + spaces + n, mark, base⟩
      | none => (bracedBase? argument).map fun (base, n) => ⟨2 + n, mark, base⟩
    else none
  | _ => none

/-- An accent command with its base, all of it in braces. -/
def accentGroup? : List Char → Option Accent
  | '{' :: cs =>
    match accent? cs with
    | some a =>
      if (cs.drop a.length).head? = some '}' then some { a with length := a.length + 2 } else none
    | none => none
  | _ => none

/-- A base in braces begins with a brace. -/
theorem bracedBase?_of_head?_ne {cs : List Char} (h : cs.head? ≠ some '{') :
    bracedBase? cs = none := by
  unfold bracedBase?
  split
  · exact absurd rfl h
  · rfl

/-- An accent begins with a backslash. -/
theorem accent?_of_head?_ne {cs : List Char} (h : cs.head? ≠ some '\\') :
    accent? cs = none := by
  unfold accent?
  split
  · exact absurd rfl h
  · rfl

/-- An accent in a group begins with a brace. -/
theorem accentGroup?_of_head?_ne {cs : List Char} (h : cs.head? ≠ some '{') :
    accentGroup? cs = none := by
  unfold accentGroup?
  split
  · exact absurd rfl h
  · rfl

/-- An accent takes its backslash and its mark at least. -/
theorem accent?_pos {cs : List Char} {accent : Accent} (h : accent? cs = some accent) :
    0 < accent.length := by
  unfold accent? at h
  split at h
  · dsimp only at h
    split at h
    · split at h
      -- an accent that stands alone, and below one with its base
      · obtain rfl := Option.some.inj h
        show 0 < 2 + _ + _
        omega
      · obtain ⟨⟨base, n⟩, -, rfl⟩ := Option.map_eq_some_iff.mp h
        show 0 < 2 + n
        omega
    · cases h
  · cases h

/-- An accent in a group takes its brace at least. -/
theorem accentGroup?_pos {cs : List Char} {accent : Accent} (h : accentGroup? cs = some accent) :
    0 < accent.length := by
  unfold accentGroup? at h
  split at h
  · split at h
    · split at h
      · obtain rfl := Option.some.inj h
        exact Nat.succ_pos _
      · cases h
    · cases h
  · cases h

/-- Only a dotless letter takes more than one character to tell. -/
theorem Accent.base?_of_ne {c : Char} (hc : c ≠ '\\') (cs : List Char) :
    base? (c :: cs) = if c.isAlpha then some (c, 1) else none := by
  unfold base?
  split
  · next heq => exact absurd (List.cons.inj heq).1 hc
  · next heq => exact absurd (List.cons.inj heq).1 hc
  · next heq =>
    obtain ⟨rfl, -⟩ := List.cons.inj heq
    rfl
  · next heq => cases heq

end ProseLens.Token
