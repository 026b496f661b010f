import ProseLens.Signature.Basic
import ProseLens.Text.Bytes

/-! # Arguments

An argument stands between delimiters.  Inside it braces and brackets nest and have to close in
order, while parentheses do not nest and a closing one counts only directly in an argument in
parentheses.  A backslash takes the character after it out of account. -/

namespace ProseLens.Signature

/-- Reads on inside an argument.  `inner` and `outer` are the delimiters that are open, innermost
    first, and `taken` is the number of characters before this text.  The answer is the number of
    characters up to the one that closes the outermost delimiter. -/
def closeArgument (inner : Delimiter) (outer : List Delimiter) (taken : Nat) :
    List Char → Option Nat
  | [] => none
  | '\\' :: [] => none
  | '\\' :: _ :: cs => closeArgument inner outer (taken + 2) cs
  | c :: cs =>
    if c = '{' then closeArgument .brace (inner :: outer) (taken + 1) cs
    else if c = '[' then closeArgument .bracket (inner :: outer) (taken + 1) cs
    else if c = '}' ∨ c = ']' then
      if c = inner.closing then
        match outer with
        | [] => some (taken + 1)
        | next :: outer => closeArgument next outer (taken + 1) cs
      else none
    else if c = ')' ∧ inner = .parenthesis then some (taken + 1)
    else closeArgument inner outer (taken + 1) cs

/-- An argument of the given kind at the start of a text, as a number of characters. -/
def argument? (kind : Delimiter) : List Char → Option Nat
  | [] => none
  | c :: cs => if c = kind.opening then closeArgument kind [] 1 cs else none

/-- The byte offset where the argument at byte `offset` of `source` ends. -/
def argumentEnd? (kind : Delimiter) (source : String) (offset : Nat) : Option Nat :=
  (Text.measureAt? (argument? kind) source offset).map (offset + ·)

/-- An argument of any kind at the start of a text. -/
def anyArgument? (cs : List Char) : Option Nat :=
  Delimiter.all.findSome? fun kind => argument? kind cs

end ProseLens.Signature
