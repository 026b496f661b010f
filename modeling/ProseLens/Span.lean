/-! # Spans

A span is one stretch of source together with what a checker reads in its place: the stretch
itself where it is prose, an interpretation (often empty) where it is markup. -/

namespace ProseLens

/-- One stretch of annotated source. -/
inductive Span where
  /-- Source that is read as it stands. -/
  | text (raw : String)
  /-- Source that is read as `interpreted`. -/
  | markup (raw interpreted : String)
  deriving DecidableEq, Repr, Inhabited

namespace Span

/-- The source that the span covers. -/
def raw : Span → String
  | text raw => raw
  | markup raw _ => raw

/-- What the span contributes to the plain text. -/
def plain : Span → String
  | text raw => raw
  | markup _ interpreted => interpreted

/-- Whether the span is read as it stands. -/
def isText : Span → Bool
  | text _ => true
  | markup _ _ => false

/-- The source that spans cover one after the other. -/
def source (spans : List Span) : List Char := spans.flatMap (·.raw.toList)

@[simp] theorem raw_text (raw : String) : (text raw).raw = raw := rfl

@[simp] theorem raw_markup (raw interpreted : String) : (markup raw interpreted).raw = raw := rfl

@[simp] theorem plain_text (raw : String) : (text raw).plain = raw := rfl

@[simp] theorem plain_markup (raw interpreted : String) :
    (markup raw interpreted).plain = interpreted := rfl

@[simp] theorem isText_text (raw : String) : (text raw).isText = true := rfl

@[simp] theorem isText_markup (raw interpreted : String) :
    (markup raw interpreted).isText = false := rfl

@[simp] theorem source_nil : source [] = [] := rfl

@[simp] theorem source_cons (span : Span) (spans : List Span) :
    source (span :: spans) = span.raw.toList ++ source spans := rfl

/-- The source of two runs of spans is their sources one after the other. -/
@[simp] theorem source_append (first second : List Span) :
    source (first ++ second) = source first ++ source second := by
  simp [source]

end Span

end ProseLens
