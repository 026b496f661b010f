import ProseLens.AnnotatedText.Basic
import ProseLens.Event
import ProseLens.Options
import ProseLens.Signature.Registry

/-! # The state of an extraction

An extraction reads a source from left to right and records it in a builder.  Its state is the text
that is still unread, the builder, and what it remembers.  The source is at all times the recorded
part followed by the unread part, so that the reading position is the length of the recorded part.

The three emitters `text`, `markup` and `markupAs` are the only operations that read on: each takes
a number of characters off the unread text and records exactly those.  They take what there is if
that is less, and do nothing at all if that is nothing. -/

namespace ProseLens.Extract

open AnnotatedText (Builder)

/-- How an ignored environment ends. -/
inductive Terminator where
  /-- By the closing command with the name in braces. -/
  | braced (name : List Char)
  /-- By the closing command with the name attached to it and no letter after that. -/
  | attached (name : List Char)
  deriving DecidableEq, Repr

/-- The number of characters of the terminator at the start of a text. -/
def Terminator.length? (terminator : Terminator) (cs : List Char) : Option Nat :=
  match terminator with
  | braced name =>
    let closing := "\\end\x7b".toList ++ name ++ ['}']
    if Text.startsWith cs closing then some closing.length else none
  | attached name =>
    let closing := "\\stop".toList ++ name
    match Text.stripFront? closing cs with
    | none => none
    | some rest => if rest.head?.any Char.isAlpha then none else some closing.length

/-- A closing tag that is found is not empty. -/
theorem Terminator.length?_pos {terminator : Terminator} {cs : List Char} {n : Nat}
    (h : terminator.length? cs = some n) : 0 < n := by
  cases terminator with
  | braced name =>
    simp only [length?] at h
    split at h
    · obtain rfl := Option.some.inj h
      simp
    · cases h
  -- the name must be there and end there: two ways to fail
  | attached name =>
    simp only [length?] at h
    split at h
    · cases h
    · split at h
      · cases h
      · obtain rfl := Option.some.inj h
        simp

/-- The state of an extraction. -/
structure State where
  /-- The text that is still unread. -/
  rest : List Char
  /-- The record of the text that has been read. -/
  builder : Builder
  /-- The modes that are open. -/
  modes : ModeStack := {}
  /-- The innermost mode when the current construct was begun. -/
  mode : Mode := .paragraphText
  /-- How the plain text ends. -/
  trailing : Trailing := {}
  /-- What waits for the next placeholder. -/
  pending : Pending := {}
  /-- How far the formula has come. -/
  formula : Formula := {}
  /-- The current construct shows nothing in a formula. -/
  trivial : Bool := false
  /-- How the ignored environment ends that is being read. -/
  terminator : Option Terminator := none
  /-- The number of placeholders so far; the next one gets this number. -/
  placeholders : Nat := 0
  /-- What was reported so far, newest first. -/
  events : List Event := []

namespace State

/-- The state before anything of `source` is read. -/
def start (source : List Char) (origin : Nat) : State :=
  { rest := source, builder := Builder.start origin }

/-- Byte offset of the reading position. -/
def position (s : State) : Nat := s.builder.sourceLength

/-- The next `n` characters are prose. -/
def text (s : State) (n : Nat) : State :=
  match s.rest.take n with
  | [] => s
  | raw =>
    { s with
      rest := s.rest.drop n
      builder := s.builder.appendText (String.ofList raw)
      trailing := s.trailing.after raw }

/-- The next `n` characters are markup that is not read as anything. -/
def markup (s : State) (n : Nat) : State :=
  match s.rest.take n with
  | [] => s
  | raw =>
    { s with
      rest := s.rest.drop n
      builder := s.builder.appendMarkup (String.ofList raw) ""
      pending := s.pending.afterMarkup }

/-- The next `n` characters are markup that is read as `interpreted`. -/
def markupAs (s : State) (n : Nat) (interpreted : String) : State :=
  if interpreted.isEmpty then s.markup n
  else match s.rest.take n with
    | [] => s
    | raw =>
      { s with
        rest := s.rest.drop n
        builder := s.builder.appendMarkup (String.ofList raw) interpreted
        pending := { s.pending with kept := false }
        trailing := s.trailing.after interpreted.toList }

/-! ## Changes to what is remembered -/

/-- Enters a mode. -/
def push (s : State) (mode : Mode) : State := { s with modes := s.modes.push mode }

/-- Leaves the innermost mode. -/
def pop (s : State) : State := { s with modes := s.modes.pop }

/-- The next markup spares what waits for a placeholder. -/
def keepPending (s : State) : State := { s with pending := { s.pending with kept := true } }

/-- A space waits for the next placeholder. -/
def awaitSpace (s : State) : State := { s with pending := { s.pending with space := true } }

/-- The current construct shows nothing in a formula. -/
def markTrivial (s : State) : State := { s with trivial := true }

/-- Enters a formula on lines of its own. -/
def enterDisplayMath (s : State) : State :=
  { s.push .displayMath with formula := .entered }

/-- Enters a formula within a line. -/
def enterInlineMath (s : State) : State :=
  { s.push .inlineMath with formula := .entered, trivial := true }

/-- The report on a stall in this state of an extraction of `source`. -/
def stall (s : State) (source : List Char) : Stall where
  position := s.position
  modes := s.modes.toList
  trailing := s.trailing
  formula := s.formula
  placeholders := s.placeholders
  surroundings := Stall.context (source.take (source.length - s.rest.length)) s.rest

/-- Adds to what was reported. -/
def report (s : State) (event : Event) : State := { s with events := event :: s.events }

end State

end ProseLens.Extract
