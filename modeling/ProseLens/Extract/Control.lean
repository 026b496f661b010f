import ProseLens.Text.Front

/-! # Control sequences with a meaning of their own

What each control sequence means to an extraction is a table.  The openings and closings of
environments that have the name attached to them are the only ones that are known by how they
begin.  A control sequence that is not in the table is left to the signatures. -/

namespace ProseLens.Extract

/-- The meaning of a control sequence. -/
inductive Control where
  /-- Opens an environment; the name is attached to it or follows in braces. -/
  | opening (attached : Option (List Char))
  /-- Closes an environment; the name is attached to it or follows in braces. -/
  | closing (attached : Option (List Char))
  /-- Stands for this character. -/
  | escaped (c : Char)
  /-- Opens a formula on lines of its own. -/
  | displayMath
  /-- Opens a formula within a line. -/
  | inlineMath
  /-- Closes a formula. -/
  | mathEnd
  /-- Allows a word to be divided. -/
  | hyphenation
  /-- Marks a formula or a proof without being part of it. -/
  | mark
  /-- Begins prose inside a formula. -/
  | inlineText
  /-- Begins verbatim text. -/
  | verbatim
  /-- Puts an accent on what follows. -/
  | accent
  /-- Is read as this space; may be followed by a dimension in braces. -/
  | space (read : String) (measured : Bool)
  /-- Begins the title of a section. -/
  | heading
  /-- Is read as this text in prose, and as nothing in a formula. -/
  | word (read : String)
  /-- Has no meaning of its own. -/
  | other
  deriving DecidableEq, Repr

namespace Control

/-- The meanings, by control sequence. -/
def table : List (String × Control) :=
  [("\\begin", .opening none), ("\\end", .closing none),
   ("\\$", .escaped '$'), ("\\%", .escaped '%'), ("\\&", .escaped '&'),
   ("\\[", .displayMath), ("\\(", .inlineMath), ("\\]", .mathEnd), ("\\)", .mathEnd),
   ("\\-", .hyphenation), ("\\notag", .mark), ("\\qed", .mark),
   ("\\text", .inlineText), ("\\intertext", .inlineText),
   ("\\verb", .verbatim), ("\\verb*", .verbatim),
   ("\\\x60", .accent), ("\\\x27", .accent), ("\\^", .accent), ("\\~", .accent),
   ("\\\"", .accent), ("\\=", .accent), ("\\.", .accent), ("\\H", .accent), ("\\b", .accent),
   ("\\c", .accent), ("\\d", .accent), ("\\k", .accent), ("\\r", .accent), ("\\u", .accent),
   ("\\v", .accent),
   ("\\ ", .space " " false), ("\\,", .space "\u202f" false), ("\\;", .space " " false),
   ("\\\\", .space " " false), ("\\hfill", .space " " false), ("\\hspace", .space " " true),
   ("\\hspace*", .space " " true), ("\\quad", .space " " false), ("\\qquad", .space " " false),
   ("\\newline", .space " " false),
   ("\\part", .heading), ("\\part*", .heading), ("\\chapter", .heading),
   ("\\chapter*", .heading), ("\\section", .heading), ("\\section*", .heading),
   ("\\subsection", .heading), ("\\subsection*", .heading), ("\\subsubsection", .heading),
   ("\\subsubsection*", .heading), ("\\paragraph", .heading), ("\\paragraph*", .heading),
   ("\\subparagraph", .heading), ("\\subparagraph*", .heading),
   ("\\AA", .word "\u00c5"), ("\\L", .word "\u0141"), ("\\O", .word "\u00d8"),
   ("\\SS", .word "\u1e9e"), ("\\aa", .word "\u00e5"), ("\\i", .word "\u0131"),
   ("\\j", .word "\u0237"), ("\\l", .word "\u0142"), ("\\o", .word "\u00f8"),
   ("\\ss", .word "\u00df"),
   ("\\dots", .word "\u2026"), ("\\eg", .word "e.g."), ("\\egc", .word "e.g.,"),
   ("\\euro", .word "\u20ac"), ("\\ie", .word "i.e."), ("\\iec", .word "i.e.,")]

/-- The meaning of a control sequence. -/
def ofToken (token : List Char) : Control :=
  match Text.stripFront? "\\start".toList token with
  | some name => .opening (some name)
  | none =>
    match Text.stripFront? "\\stop".toList token with
    | some name => .closing (some name)
    | none => (table.lookup (String.ofList token)).getD .other

end Control

/-- Environments whose body is a formula. -/
def mathEnvironments : List String :=
  ["align", "align*", "alignat", "alignat*", "displaymath", "eqnarray", "eqnarray*", "equation",
    "equation*", "flalign", "flalign*", "formula", "gather", "gather*", "math", "multline",
    "multline*"]

/-- The environment whose body is a formula within a line. -/
def inlineMathEnvironment : String := "math"

/-- Commands that dress up a token of a formula; the token decides how it is pronounced. -/
def transparentInMath : List String :=
  ["\\bm", "\\boldsymbol", "\\hat", "\\mathbb", "\\mathbf", "\\mathcal", "\\mathfrak", "\\mathit",
    "\\mathnormal", "\\mathsf", "\\mathtt", "\\mathop", "\\operatorname", "\\overbrace",
    "\\overleftarrow", "\\overleftrightarrow", "\\overline", "\\overrightarrow", "\\tilde",
    "\\underbrace", "\\underline", "\\vec", "\\widetilde", "\\widehat"]

/-- Symbols of a formula whose name begins with a vowel sound. -/
def vowelInMath : List String :=
  ["\\alpha", "\\ell", "\\epsilon", "\\eta", "\\iota", "\\Omega", "\\omega", "\\varepsilon"]

end ProseLens.Extract
