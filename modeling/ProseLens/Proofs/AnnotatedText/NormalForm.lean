import ProseLens.AnnotatedText.Consistency
import ProseLens.Proofs.AnnotatedText.Calls
import ProseLens.Proofs.AnnotatedText.Mapping

/-!
# The normal form of calls

Calls that are given no source leave no trace, and text behind text is one span.  Two sequences of
calls that agree up to that have the same `Span.normalForm`, which is the list of spans that a
builder records for either of them.  The other fields of what is built follow from the spans, so
that the normal form determines all of it.

Since the fields never contradict each other, a comparison with a source can only find that the
spans do not tile that source.

## Key results

- `spans_ofCalls`: the recorded spans are the normal form of the calls
- `WellFormed.eq_of_spans_eq`: a well-formed text is determined by its spans and its origin
- `WellFormed.inconsistency?_eq`: what a comparison with a source finds
- `ofCalls_canonical`: what was built has a normal form, an invariant and at most one inconsistency
-/

namespace ProseLens

namespace Span

/-- Puts a span in front of others, as part of the first of them if both are text. -/
def attach : Span → List Span → List Span
  | text first, text second :: spans => text (first ++ second) :: spans
  | span, spans => span :: spans

/-- Puts text together with the text right behind it. -/
def coalesce (spans : List Span) : List Span := spans.foldr attach []

/-- Drops the calls that are given no source and puts together the consecutive stretches of text
    that are left. -/
def normalForm (calls : List Span) : List Span := coalesce (calls.filter fun call => call.raw ≠ "")

/-- Text before text can be put together with it beforehand. -/
theorem attach_text_attach_text (first second : String) (spans : List Span) :
    attach (text first) (attach (text second) spans) = attach (text (first ++ second)) spans := by
  cases spans with
  | nil => rfl
  | cons span spans =>
    cases span with
    | markup raw interpreted => rfl
    | text third => simp only [attach, String.append_assoc]

/-- Spans that do not follow each other as text stay as they are. -/
theorem coalesce_of_isChain {spans : List Span} (h : spans.IsChain Apart) :
    coalesce spans = spans := by
  induction spans with
  | nil => rfl
  | cons span spans ih =>
    obtain ⟨hhead, htail⟩ := List.isChain_cons.mp h
    show attach span (coalesce spans) = span :: spans
    rw [ih htail]
    -- only text before text would be put together
    cases span with
    | markup raw interpreted => rfl
    | text first =>
      cases spans with
      | nil => rfl
      | cons next spans =>
        cases next with
        | markup raw interpreted => rfl
        | text second => exact absurd ⟨rfl, rfl⟩ (hhead _ rfl)

end Span

namespace AnnotatedText

/-! ## What a builder records -/

/-- Whatever a builder has recorded, further calls lead to the normal form of the whole. -/
theorem Builder.WellFormed.recorded_appendAll {b : Builder} (h : b.WellFormed)
    (calls : List Span) :
    (b.appendAll calls).recorded.reverse =
      Span.coalesce (b.recorded.reverse ++ calls.filter fun call => call.raw ≠ "") := by
  induction calls generalizing b with
  | nil =>
    have hchain : b.recorded.reverse.IsChain Span.Apart := h.build.apart
    simp [Span.coalesce_of_isChain hchain]
  | cons call calls ih =>
    have hnext : (b.append call).WellFormed := h.appendAll [call]
    rw [appendAll_cons, ih hnext]
    rcases b.recorded_append_cases call with ⟨hempty, hsame⟩ |
      ⟨last, raw, earlier, rfl, hrecorded, hlonger⟩ | ⟨hraw, hcons⟩
    · rw [hsame, List.filter_cons_of_neg (by simpa using hempty)]
    · rw [hlonger, hrecorded]
      by_cases hraw : raw = ""
      · -- nothing is put to the last span
        rw [List.filter_cons_of_neg (by simp [hraw]), hraw, String.append_empty]
      · rw [List.filter_cons_of_pos (by simp [hraw])]
        simp [Span.coalesce, Span.attach_text_attach_text]
    · rw [hcons, List.filter_cons_of_pos (by simpa using hraw), List.reverse_cons,
        List.append_assoc]
      rfl

/-- The recorded spans are the normal form of the calls. -/
theorem spans_ofCalls (origin : Nat) (calls : List Span) :
    (ofCalls origin calls).spans = Span.normalForm calls :=
  (Builder.WellFormed.start origin).recorded_appendAll calls

/-- No call moves the origin. -/
@[simp] theorem Builder.origin_append (b : Builder) (call : Span) :
    (b.append call).origin = b.origin := by
  cases call with
  | text raw =>
    show (b.appendText raw).origin = b.origin
    unfold appendText
    split
    · rfl
    · split <;> rfl
  | markup raw interpreted =>
    show (b.appendMarkup raw interpreted).origin = b.origin
    unfold appendMarkup
    split <;> rfl

/-- Several calls do not move the origin either. -/
theorem Builder.origin_appendAll (b : Builder) (calls : List Span) :
    (b.appendAll calls).origin = b.origin := by
  induction calls generalizing b with
  | nil => rfl
  | cons call calls ih => rw [appendAll_cons, ih, origin_append]

/-- A built text begins where its builder was started. -/
theorem origin_ofCalls (origin : Nat) (calls : List Span) :
    (ofCalls origin calls).origin = origin :=
  Builder.origin_appendAll (Builder.start origin) calls

namespace WellFormed

variable {t : AnnotatedText} (h : t.WellFormed)
include h

/-- The spans and the origin determine the other fields. -/
theorem eq_of_spans_eq {u : AnnotatedText} (hu : u.WellFormed) (hspans : t.spans = u.spans)
    (horigin : t.origin = u.origin) : t = u := by
  have hplain : t.plain = u.plain := by rw [h.plain_eq, hu.plain_eq, hspans]
  have hmarks : t.breakpoints = u.breakpoints := by
    rw [h.breakpoints_eq, hu.breakpoints_eq, hspans]
  cases t
  cases u
  simp_all

/-! ## What a comparison finds -/

omit h in
/-- The breakpoints that close spans never decrease. -/
theorem firstDecrease?_closings (before spans : List Span) :
    firstDecrease? (.after before :: closings before spans) = none := by
  induction spans generalizing before with
  | nil => rfl
  | cons span spans ih =>
    -- closing a span moves neither coordinate back
    have hstep : ¬ ((Breakpoint.after (before ++ [span])).plain < (Breakpoint.after before).plain ∨
        (Breakpoint.after (before ++ [span])).source < (Breakpoint.after before).source) := by
      rw [Breakpoint.plain_after_append, Breakpoint.source_after_append]
      omega
    rw [closings, firstDecrease?, if_neg hstep]
    exact ih (before ++ [span])

/-- The only disagreement can be one with the source. -/
theorem inconsistency?_eq (source : String) :
    t.inconsistency? source =
      if t.sourceText = source then none else some (.untiled t.sourceText source) := by
  -- of the five checks all but the one against the source pass
  have hempty : t.spans.findIdx? (fun span => span.raw.isEmpty) = none := by
    rw [List.findIdx?_eq_none_iff]
    intro span hspan
    simpa using h.raw_ne_empty span hspan
  have hdecrease : firstDecrease? t.breakpoints = none := by
    rw [h.breakpoints_eq_closings]
    exact firstDecrease?_closings [] t.spans
  simp only [inconsistency?, hempty]
  by_cases hsource : t.sourceText = source
  · rw [if_neg (not_not.mpr hsource), if_pos hsource, if_neg (not_not.mpr h.plain_eq.symm),
      if_neg (not_not.mpr h.length_breakpoints), hdecrease, Option.map_none]
  · rw [if_pos hsource, if_neg hsource]

end WellFormed

/-- Whatever was recorded: it is the normal form of the calls, and two sequences of calls build the
    same exactly if they have the same normal form.  After every call no span is empty, text does
    not follow text, and there is one breakpoint behind each initial segment of the spans, which
    counts the bytes of both texts up to there.  Hence a comparison with a source succeeds exactly
    if that is the recorded source, and otherwise finds that the spans do not tile it. -/
theorem ofCalls_canonical (origin : Nat) (calls : List Span) :
    (ofCalls origin calls).spans = Span.normalForm calls ∧
    (∀ calls', ofCalls origin calls = ofCalls origin calls' ↔
      Span.normalForm calls = Span.normalForm calls') ∧
    (∀ span ∈ (ofCalls origin calls).spans, span.raw ≠ "") ∧
    (ofCalls origin calls).spans.IsChain Span.Apart ∧
    (ofCalls origin calls).breakpoints.length = (ofCalls origin calls).spans.length + 1 ∧
    (∀ k ≤ (ofCalls origin calls).spans.length, (ofCalls origin calls).breakpoints[k]? =
      some ⟨(((ofCalls origin calls).spans.take k).map (·.plain.utf8ByteSize)).sum,
        (((ofCalls origin calls).spans.take k).map (·.raw.utf8ByteSize)).sum⟩) ∧
    (∀ source, (ofCalls origin calls).inconsistency? source = none ↔
      source = (ofCalls origin calls).sourceText) ∧
    (∀ source found, (ofCalls origin calls).inconsistency? source = some found →
      found = .untiled (ofCalls origin calls).sourceText source) := by
  have h := wellFormed_ofCalls origin calls
  refine ⟨spans_ofCalls origin calls, ?_, h.raw_ne_empty, h.apart, h.length_breakpoints, ?_, ?_, ?_⟩
  · intro calls'
    rw [← spans_ofCalls origin calls, ← spans_ofCalls origin calls']
    -- equal texts have equal spans, and well-formed texts are determined by spans and origin
    constructor
    · intro heq
      rw [heq]
    · intro hspans
      apply h.eq_of_spans_eq (wellFormed_ofCalls origin calls') hspans
      rw [origin_ofCalls, origin_ofCalls]
  · intro k hk
    exact h.getElem?_breakpoints hk
  · intro source
    rw [h.inconsistency?_eq]
    split
    · next hsource => simp [hsource]
    · next hsource => simp [Ne.symm hsource]
  · intro source found hfound
    rw [h.inconsistency?_eq] at hfound
    split at hfound
    · cases hfound
    · exact (Option.some.inj hfound).symm

/-- Markup without source between two words does not keep them apart. -/
example : ofCalls 7 [.text "one", .markup "" "Dummy0", .text "", .text " two"] =
    ofCalls 7 [.text "one two"] := by
  decide

end AnnotatedText

end ProseLens
