import ProseLens.Span

/-! # Annotated texts and their builder

An annotated text is the source cut into spans, the plain text that the spans contribute, and the
breakpoints: the pairs of corresponding offsets at the origin and after each span.

A `Builder` records spans in source order.  It holds its lists newest first, so that extending the
last span is a look at the head, and it keeps the newest breakpoint apart from the earlier ones, so
that there always is one.  Consecutive stretches of text become one span and an empty stretch of
source is not recorded at all; hence the spans of a built text are the coarsest ones that the calls
allow. -/

namespace ProseLens

/-- Two offsets that correspond: one into the plain text, one into the source. -/
structure Breakpoint where
  /-- Offset into the plain text. -/
  plain : Nat
  /-- Offset into the source. -/
  source : Nat
  deriving DecidableEq, Repr, Inhabited

/-- The start of both texts. -/
def Breakpoint.origin : Breakpoint := ⟨0, 0⟩

/-- A source cut into spans, with the plain text it gives and the breakpoints between the two. -/
structure AnnotatedText where
  /-- The spans in source order. -/
  spans : List Span
  /-- The text for the checker. -/
  plain : String
  /-- The origin, then the end of each span. -/
  breakpoints : List Breakpoint
  /-- Offset of the source within its document. -/
  origin : Nat
  deriving DecidableEq, Repr, Inhabited

namespace AnnotatedText

/-- Length of the source in bytes: where the last breakpoint stands. -/
def sourceLength (t : AnnotatedText) : Nat :=
  match t.breakpoints.getLast? with
  | some last => last.source
  | none => 0

/-- The source, put together again from the spans. -/
def sourceText (t : AnnotatedText) : String :=
  String.join (t.spans.map Span.raw)

/-- An annotated text in the making. -/
structure Builder where
  /-- Offset of the source within its document. -/
  origin : Nat := 0
  /-- The recorded spans, newest first. -/
  recorded : List Span := []
  /-- The plain text so far. -/
  plain : String := ""
  /-- The end of what is recorded. -/
  frontier : Breakpoint := .origin
  /-- The breakpoints before the frontier, newest first. -/
  passed : List Breakpoint := []
  deriving DecidableEq, Repr, Inhabited

namespace Builder

/-- A builder for a source that starts at byte `origin` of its document. -/
def start (origin : Nat) : Builder := { origin }

/-- Length in bytes of the source recorded so far. -/
def sourceLength (b : Builder) : Nat := b.frontier.source

/-- The frontier after `raw` has been recorded and reads as `plain`. -/
def beyond (b : Builder) (raw plain : String) : Breakpoint :=
  ⟨b.frontier.plain + plain.utf8ByteSize, b.frontier.source + raw.utf8ByteSize⟩

/-- Records a stretch of prose.  It extends the last span if that is prose too; an empty stretch
    changes nothing. -/
def appendText (b : Builder) (raw : String) : Builder :=
  if raw.isEmpty then b
  else match b.recorded with
    | .text last :: earlier =>
      { b with
        recorded := .text (last ++ raw) :: earlier
        plain := b.plain ++ raw
        frontier := b.beyond raw raw }
    | recorded =>
      { b with
        recorded := .text raw :: recorded
        plain := b.plain ++ raw
        frontier := b.beyond raw raw
        passed := b.frontier :: b.passed }

/-- Records a stretch of markup that reads as `interpreted`.  An empty stretch changes nothing,
    whatever it reads as. -/
def appendMarkup (b : Builder) (raw interpreted : String) : Builder :=
  if raw.isEmpty then b
  else
    { b with
      recorded := .markup raw interpreted :: b.recorded
      plain := b.plain ++ interpreted
      frontier := b.beyond raw interpreted
      passed := b.frontier :: b.passed }

/-- Records a span of either kind. -/
def append (b : Builder) : Span → Builder
  | .text raw => b.appendText raw
  | .markup raw interpreted => b.appendMarkup raw interpreted

/-- Records spans one after the other. -/
def appendAll (b : Builder) (spans : List Span) : Builder := spans.foldl append b

/-- The annotated text recorded so far. -/
def build (b : Builder) : AnnotatedText where
  spans := b.recorded.reverse
  plain := b.plain
  breakpoints := (b.frontier :: b.passed).reverse
  origin := b.origin

/-! ## What the operations do to the recorded source -/

@[simp] theorem sourceLength_start (origin : Nat) : (start origin).sourceLength = 0 := rfl

/-- Appending text moves the position by the bytes of the text, merged with the last span or not. -/
@[simp] theorem sourceLength_appendText (b : Builder) (raw : String) :
    (b.appendText raw).sourceLength = b.sourceLength + raw.utf8ByteSize := by
  unfold appendText
  split
  · next h => rw [String.isEmpty_iff.mp h]; simp [sourceLength]
  · split <;> simp [sourceLength, beyond]

/-- Appending markup moves the position by its bytes, whatever it is read as. -/
@[simp] theorem sourceLength_appendMarkup (b : Builder) (raw interpreted : String) :
    (b.appendMarkup raw interpreted).sourceLength = b.sourceLength + raw.utf8ByteSize := by
  unfold appendMarkup
  split
  · next h => rw [String.isEmpty_iff.mp h]; simp [sourceLength]
  · simp [sourceLength, beyond]

/-- Appending a span moves the position by the bytes of its source. -/
@[simp] theorem sourceLength_append (b : Builder) (span : Span) :
    (b.append span).sourceLength = b.sourceLength + span.raw.utf8ByteSize := by
  cases span <;> simp [append]

@[simp] theorem appendAll_nil (b : Builder) : b.appendAll [] = b := rfl

@[simp] theorem appendAll_cons (b : Builder) (span : Span) (spans : List Span) :
    b.appendAll (span :: spans) = (b.append span).appendAll spans := rfl

/-- Appending two runs of spans is appending them together. -/
@[simp] theorem appendAll_append (b : Builder) (first second : List Span) :
    b.appendAll (first ++ second) = (b.appendAll first).appendAll second := by
  simp [appendAll]

end Builder

/-- What a builder builds after the given calls, for a source that starts at byte `origin` of its
    document. -/
def ofCalls (origin : Nat) (calls : List Span) : AnnotatedText :=
  ((Builder.start origin).appendAll calls).build

end AnnotatedText

end ProseLens
