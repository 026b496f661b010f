import ProseLens.Text.CodePoint

/-! # Quoted texts

Diagnoses show pieces of source between double quotes, on one line and in characters that can be
seen.  `quote` writes that form: the quote, the backslash and the four usual controls have short
escapes, any other character that shows nothing or would be drawn onto its neighbour is
written by its code point, and everything else stands for itself. -/

namespace ProseLens.Text

/-- Escape by code point: lowercase hexadecimal digits without leading zeros, in braces. -/
def escapeCodePoint (c : Char) : String :=
  "\\u\x7b" ++ String.ofList (Nat.toDigits 16 c.toNat) ++ "\x7d"

/-- One character as it stands inside quotes. -/
def quoteChar (c : Char) : String :=
  match c with
  | '\x00' => "\\0"
  | '\t' => "\\t"
  | '\r' => "\\r"
  | '\n' => "\\n"
  | '\x22' => "\\\""
  | '\\' => "\\\\"
  | c =>
    if isExtending c || isUnprintable c then escapeCodePoint c else c.toString

/-- A text between double quotes, with what cannot be seen escaped. -/
def quote (s : String) : String :=
  "\"" ++ String.join (s.toList.map quoteChar) ++ "\""

end ProseLens.Text
