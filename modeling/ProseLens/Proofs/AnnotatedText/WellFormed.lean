import Mathlib.Algebra.GroupWithZero.Nat
import Mathlib.Data.List.Chain
import Mathlib.Data.List.Infix
import ProseLens.AnnotatedText.Basic

/-!
# Well-formed annotated texts

The fields of an annotated text repeat each other.  `WellFormed` says in which way: no span is
empty, text does not follow text, the plain text is what the spans contribute, and breakpoint `k`
stands after the first `k` spans (`Breakpoint.after`).

The builder keeps the same facts about its lists, which are held newest first
(`Builder.WellFormed`).  Every call preserves them, so that whatever a sequence of calls has
recorded is well-formed.

## Key results

- `wellFormed_ofCalls`: what any sequence of calls builds is well-formed
- `sourceText_ofCalls`: its source is what the calls were given, in order
- `WellFormed.getElem?_breakpoints`: where breakpoint `k` stands
-/

namespace ProseLens

/-- The corresponding offsets after `spans`: the bytes that they contribute to the plain text, and
    the bytes of source that they cover. -/
def Breakpoint.after (spans : List Span) : Breakpoint :=
  ⟨(spans.map (·.plain.utf8ByteSize)).sum, (spans.map (·.raw.utf8ByteSize)).sum⟩

@[simp] theorem Breakpoint.plain_origin : origin.plain = 0 := rfl

@[simp] theorem Breakpoint.source_origin : origin.source = 0 := rfl

@[simp] theorem Breakpoint.after_nil : Breakpoint.after [] = .origin := rfl

/-- What two runs of spans contribute to the plain text adds up. -/
@[simp] theorem Breakpoint.plain_after_append (first second : List Span) :
    (after (first ++ second)).plain = (after first).plain + (after second).plain := by
  simp [after]

/-- The source that two runs of spans cover adds up. -/
@[simp] theorem Breakpoint.source_after_append (first second : List Span) :
    (after (first ++ second)).source = (after first).source + (after second).source := by
  simp [after]

@[simp] theorem Breakpoint.plain_after_cons (span : Span) (spans : List Span) :
    (after (span :: spans)).plain = span.plain.utf8ByteSize + (after spans).plain := by
  simp [after]

@[simp] theorem Breakpoint.source_after_cons (span : Span) (spans : List Span) :
    (after (span :: spans)).source = span.raw.utf8ByteSize + (after spans).source := by
  simp [after]

/-- Bytes of joined texts add up. -/
theorem utf8ByteSize_join (texts : List String) :
    (String.join texts).utf8ByteSize = (texts.map String.utf8ByteSize).sum := by
  induction texts with
  | nil => rfl
  | cons text texts ih => rw [String.join_cons, String.utf8ByteSize_append, ih]; rfl

/-- The two spans are not both text. -/
def Span.Apart (first second : Span) : Prop := ¬ (first.isText = true ∧ second.isText = true)

/-- Being apart does not depend on the order. -/
theorem Span.Apart.symm {first second : Span} (h : first.Apart second) : second.Apart first :=
  fun ⟨hsecond, hfirst⟩ => h ⟨hfirst, hsecond⟩

namespace AnnotatedText

/-- The fields of an annotated text agree with each other: every span covers some source, text does
    not follow text, the plain text is what the spans contribute, and there is one breakpoint after
    each initial segment of the spans. -/
structure WellFormed (t : AnnotatedText) : Prop where
  raw_ne_empty : ∀ span ∈ t.spans, span.raw ≠ ""
  apart : t.spans.IsChain Span.Apart
  plain_eq : t.plain = String.join (t.spans.map Span.plain)
  breakpoints_eq : t.breakpoints = t.spans.inits.map Breakpoint.after

namespace WellFormed

variable {t : AnnotatedText}

/-- There is one breakpoint more than there are spans. -/
theorem length_breakpoints (h : t.WellFormed) : t.breakpoints.length = t.spans.length + 1 := by
  rw [h.breakpoints_eq, List.length_map, List.length_inits]

/-- Breakpoint `k` stands after the first `k` spans. -/
theorem getElem?_breakpoints (h : t.WellFormed) {k : Nat} (hk : k ≤ t.spans.length) :
    t.breakpoints[k]? = some (.after (t.spans.take k)) := by
  have hlt : k < t.spans.inits.length := by
    rw [List.length_inits]
    omega
  rw [h.breakpoints_eq, List.getElem?_map, List.getElem?_eq_getElem hlt, List.getElem_inits]
  rfl

/-- The last breakpoint stands after all spans. -/
theorem sourceLength_eq (h : t.WellFormed) :
    t.sourceLength = (Breakpoint.after t.spans).source := by
  have hlast : t.breakpoints.getLast? = some (.after t.spans) := by
    rw [List.getLast?_eq_getElem?, h.length_breakpoints, Nat.add_sub_cancel,
      h.getElem?_breakpoints (Nat.le_refl _), List.take_length]
  simp only [sourceLength, hlast]

/-- The last breakpoint stands at the end of the plain text. -/
theorem utf8ByteSize_plain (h : t.WellFormed) :
    t.plain.utf8ByteSize = (Breakpoint.after t.spans).plain := by
  rw [h.plain_eq, utf8ByteSize_join, List.map_map]
  rfl

end WellFormed

namespace Builder

/-- What a builder keeps true of its fields.  Its lists are held newest first, hence the
    reversals. -/
structure WellFormed (b : Builder) : Prop where
  raw_ne_empty : ∀ span ∈ b.recorded, span.raw ≠ ""
  apart : b.recorded.IsChain Span.Apart
  plain_eq : b.plain = String.join (b.recorded.reverse.map Span.plain)
  -- the segments of the spans get shorter towards the start, and the last one is empty
  marks_eq : b.frontier :: b.passed = b.recorded.tails.map fun spans => .after spans.reverse

namespace WellFormed

variable {b : Builder}

/-- A builder that has been started holds nothing. -/
theorem start (origin : Nat) : (Builder.start origin).WellFormed where
  raw_ne_empty := by simp [Builder.start]
  apart := List.IsChain.nil
  plain_eq := rfl
  marks_eq := rfl

/-- The frontier stands after all recorded spans. -/
theorem frontier_eq (h : b.WellFormed) : b.frontier = .after b.recorded.reverse := by
  have hmarks := h.marks_eq
  cases hrec : b.recorded with
  | nil => rw [hrec] at hmarks; exact (List.cons.inj hmarks).1
  | cons span earlier => rw [hrec] at hmarks; exact (List.cons.inj hmarks).1

/-- Recording a span behind one that it does not merge with. -/
private theorem cons (h : b.WellFormed) (span : Span) (hraw : span.raw ≠ "")
    (hapart : ∀ last ∈ b.recorded.head?, span.Apart last) :
    WellFormed { b with
      recorded := span :: b.recorded
      plain := b.plain ++ span.plain
      frontier := b.beyond span.raw span.plain
      passed := b.frontier :: b.passed } where
  raw_ne_empty := by
    intro s hs
    rcases List.mem_cons.mp hs with rfl | hs
    · exact hraw
    · exact h.raw_ne_empty s hs
  apart := List.isChain_cons.mpr ⟨hapart, h.apart⟩
  plain_eq := by simp [h.plain_eq]
  marks_eq := by
    have hbeyond : b.beyond span.raw span.plain = .after (span :: b.recorded).reverse := by
      simp [beyond, h.frontier_eq, Breakpoint.after]
    rw [List.tails, List.map_cons, ← h.marks_eq, hbeyond]

/-- Recording more text behind text extends the last span. -/
private theorem extend (h : b.WellFormed) {last raw : String} {earlier : List Span}
    (hrec : b.recorded = .text last :: earlier) :
    WellFormed { b with
      recorded := .text (last ++ raw) :: earlier
      plain := b.plain ++ raw
      frontier := b.beyond raw raw } where
  raw_ne_empty := by
    intro s hs
    have hlast := h.raw_ne_empty (.text last) (by simp [hrec])
    rcases List.mem_cons.mp hs with rfl | hs
    · simp only [Span.raw_text] at hlast ⊢
      intro hempty
      exact hlast (String.append_eq_empty_iff.mp hempty).1
    · exact h.raw_ne_empty s (by simp [hrec, hs])
  apart := by
    have hchain := h.apart
    rw [hrec, List.isChain_cons] at hchain
    exact List.isChain_cons.mpr hchain
  plain_eq := by simp [h.plain_eq, hrec, String.append_assoc]
  marks_eq := by
    -- only the first mark changes: the segments that leave out the last span are the same
    have hmarks := h.marks_eq
    rw [hrec, List.tails, List.map_cons] at hmarks
    have hbeyond :
        b.beyond raw raw = .after (.text (last ++ raw) :: earlier : List Span).reverse := by
      simp [beyond, h.frontier_eq, hrec, Breakpoint.after, Nat.add_assoc]
    rw [List.tails, List.map_cons, hbeyond, (List.cons.inj hmarks).2]

/-- Appending text preserves the invariant: the text is dropped, merged, or a span of its own. -/
theorem appendText (h : b.WellFormed) (raw : String) : (b.appendText raw).WellFormed := by
  unfold Builder.appendText
  split
  · exact h
  · next hraw =>
    have hne : raw ≠ "" := by simpa using hraw
    split
    · next last earlier hrec => exact h.extend hrec
    · next hlast =>
      -- the last span, if there is one, was not text, or the case before would apply
      refine h.cons (.text raw) hne ?_
      intro span hspan
      cases span with
      | markup => simp [Span.Apart]
      | text last =>
        obtain ⟨earlier, hrec⟩ := List.head?_eq_some_iff.mp hspan
        exact absurd hrec (hlast last earlier)

/-- Appending markup preserves the invariant: the markup is dropped, or a span of its own. -/
theorem appendMarkup (h : b.WellFormed) (raw interpreted : String) :
    (b.appendMarkup raw interpreted).WellFormed := by
  unfold Builder.appendMarkup
  split
  · exact h
  · next hraw =>
    refine h.cons (.markup raw interpreted) (by simpa using hraw) ?_
    intro last _
    simp [Span.Apart]

/-- Any sequence of calls keeps a builder well-formed. -/
theorem appendAll (h : b.WellFormed) (calls : List Span) : (b.appendAll calls).WellFormed := by
  induction calls generalizing b with
  | nil => exact h
  | cons call calls ih =>
    cases call with
    | text raw => exact ih (h.appendText raw)
    | markup raw interpreted => exact ih (h.appendMarkup raw interpreted)

/-- What a well-formed builder builds is well-formed; its lists are turned round. -/
theorem build (h : b.WellFormed) : b.build.WellFormed where
  raw_ne_empty := by
    intro span hspan
    exact h.raw_ne_empty span (List.mem_reverse.mp hspan)
  apart := by
    refine List.isChain_reverse.mpr (h.apart.imp ?_)
    intro first second hapart
    exact hapart.symm
  plain_eq := h.plain_eq
  breakpoints_eq := by
    -- reversal turns the final segments of the record into the initial ones of the spans
    show (b.frontier :: b.passed).reverse = b.recorded.reverse.inits.map Breakpoint.after
    rw [h.marks_eq, List.inits_reverse, List.map_reverse, List.map_map]
    rfl

end WellFormed

/-- A call adds to the source what it was given. -/
theorem sourceText_build_append (b : Builder) (call : Span) :
    (b.append call).build.sourceText = b.build.sourceText ++ call.raw := by
  cases call with
  | text raw =>
    show (b.appendText raw).build.sourceText = _
    unfold appendText
    split
    · next hraw => simp [String.isEmpty_iff.mp hraw]
    · split
      -- text behind text joins the last span, which moves the brackets only
      · next last earlier hrec => simp [build, sourceText, hrec, String.append_assoc]
      · simp [build, sourceText]
  | markup raw interpreted =>
    show (b.appendMarkup raw interpreted).build.sourceText = _
    unfold appendMarkup
    split
    · next hraw => simp [String.isEmpty_iff.mp hraw]
    · simp [build, sourceText]

/-- The source of what a sequence of calls builds is what the calls were given, in order. -/
theorem sourceText_build_appendAll (b : Builder) (calls : List Span) :
    (b.appendAll calls).build.sourceText =
      b.build.sourceText ++ String.join (calls.map Span.raw) := by
  induction calls generalizing b with
  | nil => simp
  | cons call calls ih =>
    rw [appendAll_cons, ih, sourceText_build_append, List.map_cons, String.join_cons,
      String.append_assoc]

end Builder

/-- What any sequence of calls builds is well-formed. -/
theorem wellFormed_ofCalls (origin : Nat) (calls : List Span) : (ofCalls origin calls).WellFormed :=
  ((Builder.WellFormed.start origin).appendAll calls).build

/-- The source of what was built is what the calls were given. -/
theorem sourceText_ofCalls (origin : Nat) (calls : List Span) :
    (ofCalls origin calls).sourceText = String.join (calls.map Span.raw) := by
  rw [ofCalls, Builder.sourceText_build_appendAll]
  exact String.empty_append

end AnnotatedText

end ProseLens
