import ProseLens.Extract.Command
import ProseLens.Token.Dimension

/-! # What begins with any other character -/

namespace ProseLens.Extractor

open Extract

/-- A character inside an ignored environment: the terminator ends it, all else is markup. -/
def ignored (s : State) : State :=
  match s.terminator with
  | none => ((s.report (.missingTerminator s.position)).pop).markup 1
  | some terminator =>
    match terminator.length? s.rest with
    | some n => { s.pop with terminator := none }.markup n
    | none => s.markup 1

/-- A character inside an embedded chunk of code, which an at sign ends. -/
def codeChunk (s : State) (c : Char) : State :=
  (if c = '@' then s.pop else s).markup 1

/-- An opening brace.  A dimension in braces is markup and an accent in braces is read as such; any
    other opens a group in the current mode. -/
def openBrace (s : State) : State :=
  match Token.dimension? '{' '}' s.rest with
  | some n => s.markup n
  | none =>
    match Token.accentGroup? s.rest with
    | some accent => s.markupAs accent.length (Token.Accent.compose accent.mark accent.base)
    | none => (s.push s.mode).markup 1

/-- What a closing brace is read as: it ends a title with a full stop, and separates two groups. -/
def closeBraceRead (s : State) : String :=
  if s.mode = .heading ∧ s.trailing.punctuation = false then "."
  else if s.mode.isText ∧ (s.rest.drop 1).head? = some '{' then " "
  else ""

/-- A closing brace.  After prose inside a formula the formula begins anew. -/
def closeBrace (s : State) : State :=
  let closed := s.pop.markupAs 1 (closeBraceRead s)
  let anew := s.mode.isText && closed.modes.top.isMath
  { closed with
    formula := { closed.formula with
      spaceBefore := true
      empty := closed.formula.empty || anew }
    trivial := true }

/-- A dollar sign, or two of them, open and close formulas. -/
def dollar (x : Extractor) (s : State) : State :=
  if Text.startsWith s.rest ['$', '$'] then
    if s.mode = .displayMath then s.pop.replace 2 x.options.language .singular
    else s.enterDisplayMath.markup 2
  else if s.mode = .inlineMath then s.pop.replace 1 x.options.language .singular
  else s.enterInlineMath.markup 1

/-- A comment is markup; a blank line after it still ends the paragraph. -/
def percent (s : State) : State :=
  let n := (Token.comment? s.rest).getD 1
  let read := if Token.hasBlankLine (s.rest.take n) then "\n\n" else ""
  s.keepPending.markTrivial.markupAs n read

/-- A run of blanks, a tie or an alignment mark: in prose a paragraph break or a single space, in a
    formula nothing.  Ties and alignment marks ask the next placeholder for a space. -/
def blank (s : State) (c : Char) : State :=
  let single := c == '~' || c == '&'
  let n := if single then 1 else (Token.blanks? s.rest).getD 1
  let read :=
    if Token.hasBlankLine (s.rest.take n) then "\n\n"
    else if s.trailing.space then ""
    else if c = '~' then "\u00a0"
    else " "
  let s := s.keepPending.markTrivial
  let s := if s.mode.isText then s.markupAs n read else s.markup n
  if single then s.awaitSpace else s

/-- A character without a meaning of its own: prose in prose, and one token of a formula
    otherwise. -/
def plainCharacter (s : State) (c : Char) : State :=
  if s.mode.isText then s.text 1
  else
    let s := s.markup 1
    { s with
      pending := { s.pending with
        punctuation := if isPunctuation c then some c else s.pending.punctuation }
      formula := { s.formula with
        lead := s.formula.lead.orElse (if hasVowelName c then .vowel else .consonant) } }

/-- Pairs of characters that stand for a quotation mark, a hyphen or nothing. -/
def digraphs : List (List Char × String) :=
  [(['\x60', '\x60'], "\u201c"), (['\x22', '\x27'], "\u201c"), (['\x27', '\x27'], "\u201d"),
    (['\x22', '\x60'], "\u201e"), (['\x22', '-'], ""), (['\x22', '\x22'], ""),
    (['\x22', '|'], ""), (['\x22', '='], "-"), (['\x22', '~'], "-")]

/-- A quotation mark, alone or in a pair. -/
def quotationMark (s : State) (c : Char) : State :=
  if s.mode.isText then
    match digraphs.find? fun (pair, _) => Text.startsWith s.rest pair with
    | some (_, read) => s.markupAs 2 read
    | none => plainCharacter s c
  else s.markup 1

/-- Any other character.  Hyphens make dashes in prose, a dimension in brackets is markup, and a
    chunk of code may begin where the dialect has them. -/
def otherCharacter (x : Extractor) (s : State) (c : Char) : State :=
  if c = '-' ∧ s.mode.isText ∧ Text.startsWith s.rest ['-', '-', '-'] then s.markupAs 3 "\u2014"
  else if c = '-' ∧ s.mode.isText ∧ Text.startsWith s.rest ['-', '-'] then s.markupAs 2 "\u2013"
  else
    let dimension := if c = '[' then Token.dimension? '[' ']' s.rest else none
    let chunk :=
      if c = '<' ∧ x.options.dialect = .rsweave then Token.chunkOpener? s.rest else none
    match dimension, chunk with
    | some n, _ => s.markTrivial.keepPending.markup n
    | none, some n => (s.push .embeddedCodeChunk).markup n
    | none, none => plainCharacter s c

/-- The construct that begins with `c`, in the current mode. -/
def construct (x : Extractor) (s : State) (c : Char) : State :=
  match s.mode with
  | .ignoredEnvironment => ignored s
  | .embeddedCodeChunk => codeChunk s c
  | _ =>
    match c with
    | '\\' => x.backslash s
    | '{' => openBrace s
    | '}' => closeBrace s
    | '$' => x.dollar s
    | '%' => percent s
    | ' ' | '&' | '~' | '\n' | '\r' | '\t' => blank s c
    | '\x60' | '\x27' | '\x22' => quotationMark s c
    | c => x.otherCharacter s c

/-- The formula after a construct: unless that was trivial, the formula is no longer empty and the
    place before its placeholder is taken. -/
def settle (s : State) : State :=
  if s.trivial then s
  else { s with formula := { s.formula with empty := false, spaceBefore := false } }

/-- One step of an extraction: the construct at the reading position. -/
def step (x : Extractor) (s : State) : State :=
  match s.rest with
  | [] => s
  | c :: _ => settle (x.construct { s with mode := s.modes.top, trivial := false } c)

end ProseLens.Extractor
