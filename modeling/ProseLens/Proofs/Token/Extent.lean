import ProseLens.Proofs.Token.Grammar
import ProseLens.Proofs.Token.Octets
import ProseLens.Signature.Basic

/-!
# How far recognizers reach

A recognizer can be asked at every byte of a source, also inside a character and past the end.  What
it accepts begins and ends where characters do, is not empty and lies within the source.  Read as
bytes, with offsets that are looked up and sliced at (`Recognizer.inBytes?`), every recognizer finds
the same and never goes past the end.

## Key results

- `Recognizer.length?_pos`, `Recognizer.length?_le`: what is accepted of some characters
- `Recognizer.inBytes?_eq`: the readers of bytes find what is recognized
- `recognizers_accept_whole_characters`: what is accepted of a source
-/

namespace ProseLens.Token

open Text

/-! ## Verbatim text and chunks -/

/-- Looks for a delimiter on the rest of a line.  The answer is the number of bytes up to and
    including the delimiter, if there are `taken` bytes before that rest. -/
def closingAt? (delimiter : Char) (taken : Nat) : List Char → Option Nat
  | [] => none
  | c :: cs =>
    if isLineEnd c then none
    else if c = delimiter then some (taken + c.utf8Size)
    else closingAt? delimiter (taken + c.utf8Size) cs

/-- The number of bytes of delimited text. -/
def delimitedSize? : List Char → Option Nat
  | [] => none
  | delimiter :: cs =>
    if isLineEnd delimiter then none else closingAt? delimiter delimiter.utf8Size cs

/-- Verbatim text, with or without a star. -/
def verbatimInBytes? (source : String) (start : Nat) : Option Nat :=
  (dropBytes? source.toList start).bind fun cs =>
    (stripFront? "\\verb".toList cs).bind fun body =>
      ((stripFront? ['*'] body).bind fun inner => (delimitedSize? inner).map (6 + ·)).or
        ((delimitedSize? body).map (5 + ·))

/-- The number of bytes before the first occurrence of `part`, if there are `taken` bytes before
    the text. -/
def offsetOf? (part : List Char) (taken : Nat) : List Char → Option Nat
  | [] => if part.isEmpty then some taken else none
  | c :: cs =>
    if startsWith (c :: cs) part then some taken else offsetOf? part (taken + c.utf8Size) cs

/-- The opener of an embedded chunk of code. -/
def chunkOpenerInBytes? (source : String) (start : Nat) : Option Nat :=
  (dropBytes? source.toList start).bind fun cs => (stripFront? ['<', '<'] cs).bind fun label =>
    (offsetOf? ['>', '>', '='] 0 (label.takeWhile fun c => !isLineEnd c)).map (· + 5)

/-- The closing delimiter that is found is the first one on the line. -/
theorem closingAt?_eq (delimiter : Char) (taken : Nat) (cs : List Char) :
    closingAt? delimiter taken cs =
      ((cs.takeWhile fun c => !isLineEnd c).findIdx? (· == delimiter)).map fun n =>
        taken + byteLength (cs.take (n + 1)) := by
  induction cs generalizing taken with
  | nil => rfl
  | cons c cs ih =>
    rw [closingAt?]
    -- the search ends with the line
    by_cases hend : isLineEnd c = true
    · rw [if_pos hend, List.takeWhile_cons_of_neg (by simp [hend])]
      rfl
    · rw [if_neg hend, List.takeWhile_cons_of_pos (by simp [hend]), List.findIdx?_cons]
      by_cases hc : c = delimiter
      · rw [if_pos hc, if_pos (beq_iff_eq.mpr hc), Option.map_some, List.take_succ_cons,
          byteLength_cons]
        rfl
      · rw [if_neg hc, if_neg (mt beq_iff_eq.mp hc), ih, Option.map_map]
        refine Option.map_congr fun n _ => ?_
        exact Nat.add_assoc _ _ _

/-- A delimited text is measured in bytes as it is found in characters. -/
theorem delimitedSize?_eq (cs : List Char) :
    delimitedSize? cs = (delimited? cs).map fun n => byteLength (cs.take n) := by
  cases cs with
  | nil => rfl
  | cons delimiter cs =>
    rw [delimitedSize?, delimited?]
    split
    · rfl
    · rw [closingAt?_eq, Option.map_map]
      rfl

/-- Behind a command, the bytes of the command are added. -/
theorem map_delimitedSize? {command cs inner : List Char}
    (hinner : stripFront? command cs = some inner) :
    (delimitedSize? inner).map (byteLength command + ·) =
      (delimitedAfter? command cs).map fun n => byteLength (cs.take n) := by
  rw [delimitedAfter?, hinner, delimitedSize?_eq, Option.bind_some, Option.map_map, Option.map_map]
  refine Option.map_congr fun n _ => ?_
  dsimp only [Function.comp_apply]
  rw [stripFront?_eq_some_iff.mp hinner, Nat.add_comm n, List.take_length_add_append,
    byteLength_append]

/-- Verbatim text is found at a place of the source as it is found in characters. -/
theorem verbatimInBytes?_eq (source : String) (start : Nat) :
    verbatimInBytes? source start = measureAt? verbatim? source start := by
  rw [measureAt?_eq_bind]
  refine Option.bind_congr fun cs _ => ?_
  -- the starred command is the other one with a star behind it
  have hstarred : stripFront? "\\verb*".toList cs =
      (stripFront? "\\verb".toList cs).bind (stripFront? ['*']) :=
    stripFront?_append_front "\\verb".toList ['*'] cs
  rw [verbatim?_eq_or, Option.map_or]
  cases hbody : stripFront? "\\verb".toList cs with
  | none =>
    rw [hbody] at hstarred
    rw [delimitedAfter?, delimitedAfter?, hstarred, hbody]
    rfl
  | some body =>
    rw [hbody, Option.bind_some] at hstarred
    rw [Option.bind_some, ← map_delimitedSize? hbody]
    cases hinner : stripFront? ['*'] body with
    | none =>
      rw [hinner] at hstarred
      rw [delimitedAfter?, hstarred]
      rfl
    | some inner =>
      rw [hinner] at hstarred
      rw [← map_delimitedSize? hstarred]
      rfl

/-- The offset of a part is the bytes in front of its first occurrence. -/
theorem offsetOf?_eq (part : List Char) (taken : Nat) (cs : List Char) :
    offsetOf? part taken cs = (indexOf? part cs).map fun n => taken + byteLength (cs.take n) := by
  induction cs generalizing taken with
  | nil =>
    rw [offsetOf?, indexOf?]
    split <;> rfl
  | cons c cs ih =>
    rw [offsetOf?, indexOf?]
    split
    · rfl
    · rw [ih, Option.map_map]
      -- the bytes taken so far and those of the character
      refine Option.map_congr fun n _ => ?_
      exact Nat.add_assoc _ _ _

/-- The opening of a chunk is found at a place of the source as it is found in characters. -/
theorem chunkOpenerInBytes?_eq (source : String) (start : Nat) :
    chunkOpenerInBytes? source start = measureAt? chunkOpener? source start := by
  rw [measureAt?_eq_bind]
  refine Option.bind_congr fun cs _ => ?_
  rw [chunkOpener?]
  cases hlabel : stripFront? ['<', '<'] cs with
  | none => rfl
  | some label =>
    rw [Option.bind_some, offsetOf?_eq, Option.map_map, Option.map_map]
    refine Option.map_congr fun n hn => ?_
    obtain ⟨front, rest, hline, rfl⟩ := exists_append_of_indexOf? hn
    obtain ⟨tail, htail⟩ := List.takeWhile_prefix (fun c => !isLineEnd c) (l := label)
    -- the label and the closing marks stand on the line, so that they stand in the text
    have htake : label.take (front.length + 3) = front ++ ['>', '>', '='] := by
      rw [← htail, hline, List.append_assoc, List.take_length_add_append]
      rfl
    show 0 + byteLength ((label.takeWhile fun c => !isLineEnd c).take front.length) + 5 =
      byteLength (cs.take (front.length + 3 + 1 + 1))
    rw [hline, List.take_left, stripFront?_eq_some_iff.mp hlabel, List.cons_append,
      List.cons_append, List.nil_append, List.take_succ_cons, List.take_succ_cons, htake]
    rw [byteLength_cons, byteLength_cons, byteLength_append]
    show 0 + byteLength front + 5 = 1 + (1 + (byteLength front + 3))
    omega

/-! ## All recognizers -/

/-- The recognizers of a construct that is asked for at an offset of a source. -/
inductive Recognizer where
  /-- Control sequences. -/
  | control
  /-- Comments. -/
  | comment
  /-- Blanks, with a comment after them. -/
  | blanks
  /-- Groups in braces. -/
  | group
  /-- Dimensions between delimiters. -/
  | dimension (kind : Signature.Delimiter)
  /-- Accents. -/
  | accent
  /-- Accents in braces. -/
  | accentGroup
  /-- Verbatim text. -/
  | verbatim
  /-- Openers of chunks of code. -/
  | chunkOpener
  deriving DecidableEq, Repr

namespace Recognizer

/-- The number of characters that are accepted. -/
def length? : Recognizer → List Char → Option Nat
  | control => control?
  | comment => comment?
  | blanks => blanks?
  | group => group?
  | dimension kind => dimension? kind.opening kind.closing
  | accent => fun cs => (accent? cs).map Accent.length
  | accentGroup => fun cs => (accentGroup? cs).map Accent.length
  | verbatim => verbatim?
  | chunkOpener => chunkOpener?

/-- The number of bytes that are accepted at an offset, read as bytes.  Verbatim text and chunks
    are only looked for where a character begins. -/
def inBytes? (invalid : List UInt8 → Nat) (recognizer : Recognizer) (source : String)
    (start : Nat) : Except PastEnd (Option Nat) :=
  let bytes := encode source.toList
  match recognizer with
  | control => controlInBytes? bytes invalid start
  | comment => commentInBytes? bytes start
  | blanks => blanksInBytes? bytes start
  | group => groupInBytes? bytes start
  | dimension kind => dimensionInBytes? bytes kind.opening.toUInt8 kind.closing.toUInt8 start
  | accent => (accentInBytes? bytes start).map (Option.map Accent.length)
  | accentGroup => (accentGroupInBytes? bytes start).map (Option.map Accent.length)
  | verbatim => .ok (verbatimInBytes? source start)
  | chunkOpener => .ok (chunkOpenerInBytes? source start)

variable {recognizer : Recognizer}

/-- Nothing is accepted only as something. -/
theorem length?_pos {cs : List Char} {n : Nat} (h : recognizer.length? cs = some n) : 0 < n := by
  cases recognizer with
  | control => exact control?_pos h
  | comment => exact comment?_pos h
  | blanks => exact blanks?_pos h
  | group => exact group?_pos h
  | dimension kind => exact dimension?_pos h
  | accent =>
    obtain ⟨accent, haccent, rfl⟩ := Option.map_eq_some_iff.mp h
    exact accent?_pos haccent
  | accentGroup =>
    obtain ⟨accent, haccent, rfl⟩ := Option.map_eq_some_iff.mp h
    exact accentGroup?_pos haccent
  | verbatim => exact verbatim?_pos h
  | chunkOpener => exact chunkOpener?_pos h

/-- What is accepted is there. -/
theorem length?_le {cs : List Char} {n : Nat} (h : recognizer.length? cs = some n) :
    n ≤ cs.length := by
  -- what fits its expansion is there
  have hfits {found found' : Option Nat} (hrel : Option.Rel (Fits cs) found found')
      (hfound : found = some n) : n ≤ cs.length := by
    subst hfound
    cases hrel with
    | some hfits => exact hfits.le
  cases recognizer with
  | control => exact length_le_of_control? h
  | comment => exact hfits (fits_comment? cs) h
  | blanks => exact hfits (fits_blanks? cs) h
  | group => exact hfits (fits_group? cs) h
  | dimension kind =>
    cases kind <;> exact (onLine_dimension? rfl rfl h).le
  | accent =>
    obtain ⟨accent, haccent, rfl⟩ := Option.map_eq_some_iff.mp h
    exact (narrow_accent? haccent).le
  | accentGroup =>
    obtain ⟨accent, haccent, rfl⟩ := Option.map_eq_some_iff.mp h
    exact (narrow_accentGroup? haccent).le
  | verbatim => exact (onLine_verbatim? h).le
  | chunkOpener => exact (onLine_chunkOpener? h).le

/-- Read as bytes, every recognizer finds the same, and it never goes past the end. -/
theorem inBytes?_eq (invalid : List UInt8 → Nat) (source : String) (start : Nat) :
    recognizer.inBytes? invalid source start =
      .ok (measureAt? recognizer.length? source start) := by
  cases recognizer with
  | control => exact controlInBytes?_eq source start invalid
  | comment => exact commentInBytes?_eq source start
  | blanks => exact blanksInBytes?_eq source start
  | group => exact groupInBytes?_eq source start
  | dimension kind => cases kind <;> exact dimensionInBytes?_encode (by decide) (by decide) _ _
  | accent =>
    rw [inBytes?, accentInBytes?_eq, length?, measureAt?_of_narrow narrow_accent?]
    rfl
  | accentGroup =>
    rw [inBytes?, accentGroupInBytes?_eq, length?, measureAt?_of_narrow narrow_accentGroup?]
    rfl
  | verbatim => exact congrArg Except.ok (verbatimInBytes?_eq source start)
  | chunkOpener => exact congrArg Except.ok (chunkOpenerInBytes?_eq source start)

end Recognizer

/-- What a recognizer accepts at a byte of a source, whichever byte that is, is not empty, lies
    within the source, and begins and ends where characters do.  No recognizer asks for anything
    past the end of the source to find it. -/
theorem recognizers_accept_whole_characters (recognizer : Recognizer)
    (invalid : List UInt8 → Nat) (source : String) (start : Nat) :
    recognizer.inBytes? invalid source start =
        .ok (measureAt? recognizer.length? source start) ∧
      ∀ n, measureAt? recognizer.length? source start = some n →
        0 < n ∧ (String.Pos.Raw.mk start).IsValid source ∧ start + n ≤ source.utf8ByteSize ∧
          (String.Pos.Raw.mk (start + n)).IsValid source := by
  refine ⟨Recognizer.inBytes?_eq invalid source start, fun n hn => ?_⟩
  rw [measureAt?_eq_bind, Option.bind_eq_some_iff] at hn
  obtain ⟨cs, hplace, hcs⟩ := hn
  obtain ⟨k, hk, rfl⟩ := Option.map_eq_some_iff.mp hcs
  have hstop := isValid_of_dropBytes?
    (dropBytes?_of_dropBytes? hplace (List.take_append_drop k cs).symm)
  have hpos := Recognizer.length?_pos hk
  -- a recognizer takes characters that are there, each at least a byte long
  have hlength := length_le_byteLength (cs.take k)
  rw [List.length_take, Nat.min_eq_left (Recognizer.length?_le hk)] at hlength
  exact ⟨by omega, isValid_of_dropBytes? hplace, hstop.le_utf8ByteSize, hstop⟩

/-- A control symbol of two bytes behind a letter of two bytes. -/
theorem recognizers_accept_whole_characters_umlaut :
    let source := "ö\\ä"
    measureAt? Recognizer.control.length? source 2 = some 3 ∧
      (0 < 3 ∧ (String.Pos.Raw.mk 2).IsValid source ∧ 2 + 3 ≤ source.utf8ByteSize ∧
        (String.Pos.Raw.mk (2 + 3)).IsValid source) := by
  have hcontrol : measureAt? Recognizer.control.length? "ö\\ä" 2 = some 3 := by decide
  exact ⟨hcontrol,
    (recognizers_accept_whole_characters .control (fun _ => 1) "ö\\ä" 2).2 3 hcontrol⟩

end ProseLens.Token
