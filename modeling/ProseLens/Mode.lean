/-! # Modes and the mode stack

The mode says what kind of construct the reading position is in.  Modes nest, so they are kept on a
stack whose lowest entry is running prose.  That entry is not stored: a stack is the list of the
entries above it, and popping an empty list leaves it empty. -/

namespace ProseLens

/-- The kind of construct that is being read. -/
inductive Mode where
  /-- Running prose. -/
  | paragraphText
  /-- Prose inside a formula. -/
  | inlineText
  /-- The title of a section. -/
  | heading
  /-- A formula within a line. -/
  | inlineMath
  /-- A formula on lines of its own. -/
  | displayMath
  /-- The body of an environment that is hidden from the checker. -/
  | ignoredEnvironment
  /-- An embedded chunk of code. -/
  | embeddedCodeChunk
  deriving DecidableEq, Repr, Inhabited

namespace Mode

/-- Inside a formula. -/
def isMath : Mode → Bool
  | inlineMath | displayMath => true
  | _ => false

/-- Neither inside a formula nor inside an ignored environment. -/
def isText : Mode → Bool
  | inlineMath | displayMath | ignoredEnvironment => false
  | _ => true

/-- The name by which reports call the mode. -/
def name : Mode → String
  | paragraphText => "ParagraphText"
  | inlineText => "InlineText"
  | heading => "Heading"
  | inlineMath => "InlineMath"
  | displayMath => "DisplayMath"
  | ignoredEnvironment => "IgnoredEnvironment"
  | embeddedCodeChunk => "EmbeddedCodeChunk"

/-- All modes. -/
def all : List Mode :=
  [paragraphText, inlineText, heading, inlineMath, displayMath, ignoredEnvironment,
    embeddedCodeChunk]

/-- The mode that reports call by this name. -/
def ofName? (name : String) : Option Mode :=
  all.find? (·.name == name)

end Mode

/-- A stack of modes on top of running prose. -/
structure ModeStack where
  /-- The entries above the lowest one, innermost first. -/
  entries : List Mode := []
  deriving DecidableEq, Repr, Inhabited

namespace ModeStack

/-- The innermost mode. -/
def top (stack : ModeStack) : Mode :=
  stack.entries.headD .paragraphText

/-- Enters a mode. -/
def push (stack : ModeStack) (mode : Mode) : ModeStack := ⟨mode :: stack.entries⟩

/-- Leaves the innermost mode.  Running prose is never left. -/
def pop (stack : ModeStack) : ModeStack := ⟨stack.entries.tail⟩

/-- All entries, outermost first. -/
def toList (stack : ModeStack) : List Mode := .paragraphText :: stack.entries.reverse

/-- The number of entries. -/
def depth (stack : ModeStack) : Nat := stack.entries.length + 1

/-- The mode that was entered last is the innermost one. -/
@[simp] theorem top_push (stack : ModeStack) (mode : Mode) : (stack.push mode).top = mode := rfl

/-- Leaving a mode undoes entering it. -/
@[simp] theorem pop_push (stack : ModeStack) (mode : Mode) : (stack.push mode).pop = stack := rfl

@[simp] theorem toList_push (stack : ModeStack) (mode : Mode) :
    (stack.push mode).toList = stack.toList ++ [mode] := by
  simp [toList, push]

end ModeStack

end ProseLens
