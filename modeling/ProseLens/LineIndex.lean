import ProseLens.Text.Bytes

/-! # Lines and columns of a document

A line ends with a line feed, with a carriage return and a line feed, or with a carriage return
alone.  Columns are byte offsets from the start of the line.  A `LineIndex` holds, for each line,
where it starts and where its content ends, and converts between offsets and positions.  Both
directions are total: what lies outside the document goes to the nearest place inside. -/

namespace ProseLens

/-- A line and a column, both counted from zero. -/
structure Position where
  /-- The line. -/
  line : Nat
  /-- Byte offset from the start of the line. -/
  column : Nat
  deriving DecidableEq, Repr, Inhabited

/-- Where a line starts and where its content ends, before its line break. -/
structure Line where
  /-- Offset of the first byte of the line. -/
  start : Nat
  /-- Offset where the content of the line ends. -/
  stop : Nat
  deriving DecidableEq, Repr, Inhabited

/-- The lines of a document. -/
structure LineIndex where
  /-- The lines in order; an empty document has one. -/
  lines : List Line
  /-- Length of the document in bytes. -/
  length : Nat
  deriving DecidableEq, Repr, Inhabited

namespace LineIndex

/-- The lines of the text `cs` that begins at byte `offset`, on a line that began at `start`.
    `done` are the lines before it, newest first. -/
def collect (start offset : Nat) (done : List Line) : List Char → List Line
  | '\r' :: '\n' :: cs => collect (offset + 2) (offset + 2) (⟨start, offset⟩ :: done) cs
  | c :: cs =>
    if c = '\r' ∨ c = '\n' then collect (offset + 1) (offset + 1) (⟨start, offset⟩ :: done) cs
    else collect start (offset + c.utf8Size) done cs
  | [] => (⟨start, offset⟩ :: done).reverse

/-- The lines of `text`. -/
def ofString (text : String) : LineIndex where
  lines := collect 0 0 [] text.toList
  length := text.utf8ByteSize

/-- The number of lines. -/
def lineCount (index : LineIndex) : Nat := index.lines.length

/-- The position of byte `offset`: on the last line that starts at or before it.  Offsets past the
    end go to the end. -/
def position (index : LineIndex) (offset : Nat) : Position :=
  let offset := min offset index.length
  let begun := index.lines.takeWhile (·.start ≤ offset)
  match begun.getLast? with
  | some line => ⟨begun.length - 1, offset - line.start⟩
  | none => ⟨0, offset⟩

/-- The byte offset of a position.  A line past the end goes to the end of the document, a column
    past the end of its line to the end of the line's content. -/
def offset (index : LineIndex) (position : Position) : Nat :=
  match index.lines[position.line]? with
  | none => index.length
  | some line =>
    let next := (index.lines[position.line + 1]?.map Line.start).getD index.length
    if next - line.start ≤ position.column then line.stop else line.start + position.column

/-- The byte offset of coordinates that may be negative: a negative line goes to the start of the
    document, a negative column to the start of its line. -/
def clampedOffset (index : LineIndex) (line column : Int) : Nat :=
  match line, column with
  | .negSucc _, _ => 0
  | .ofNat line, .ofNat column => index.offset ⟨line, column⟩
  | .ofNat line, .negSucc _ => (index.lines[line]?.map Line.start).getD index.length

end LineIndex

end ProseLens
