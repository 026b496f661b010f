import Mathlib.Data.List.Induction
import ProseLens.Proofs.AnnotatedText.WellFormed

/-!
# What calls leave behind

A builder drops calls that are given no source and puts text together with text.  Everything else
that it is given is there again in what it builds: markup in the order of the calls, with the same
text read before it and the same source behind it.

## Key results

- `Builder.recorded_append_cases`: what one call does to the recorded spans
- `filter_spans_ofCalls`: markup of any kind is there in the order of the calls
- `exists_calls_of_spans`: where markup stands in what was built, and where in the calls
-/

namespace ProseLens

/-- What stands at some place in one list after another stands in the first or in the second. -/
theorem append_eq_append_cons_cases {α : Type} {first second left right : List α} {a : α}
    (h : first ++ second = left ++ a :: right) :
    (∃ more, first = left ++ a :: more ∧ right = more ++ second) ∨
    (∃ more, left = first ++ more ∧ second = more ++ a :: right) := by
  rw [List.append_eq_append_iff] at h
  rcases h with ⟨more, hleft, hsecond⟩ | ⟨more, hfirst, hmore⟩
  · right
    exact ⟨more, hleft, hsecond⟩
  · cases more with
    | nil =>
      -- the second list begins at that place
      right
      refine ⟨[], ?_, hmore.symm⟩
      rw [hfirst, List.append_nil, List.append_nil]
    | cons b more =>
      left
      obtain ⟨rfl, hright⟩ := List.cons.inj hmore
      exact ⟨more, hfirst, hright⟩

/-- What spans contribute to the plain text, one after the other. -/
def Span.reading (spans : List Span) : List Char := spans.flatMap (·.plain.toList)

/-- Nothing is contributed by a span without source. -/
def Span.Grounded (span : Span) : Prop := span.raw = "" → span.plain = ""

namespace Span

@[simp] theorem reading_nil : reading [] = [] := rfl

@[simp] theorem reading_cons (span : Span) (spans : List Span) :
    reading (span :: spans) = span.plain.toList ++ reading spans := rfl

/-- What two runs of spans read as is read one after the other. -/
@[simp] theorem reading_append (first second : List Span) :
    reading (first ++ second) = reading first ++ reading second := by
  simp [reading]

/-- The plain text of a run of spans, as characters. -/
theorem toList_join_plain (spans : List Span) :
    (String.join (spans.map plain)).toList = reading spans := by
  rw [String.toList_join, List.flatMap_map]
  rfl

/-- A call with source may read as anything. -/
theorem grounded_of_raw_ne {span : Span} (h : span.raw ≠ "") : span.Grounded :=
  fun hraw => absurd hraw h

/-- Markup that takes characters may read as anything. -/
theorem grounded_markup {raw : List Char} (h : raw ≠ []) (read : String) :
    (markup (String.ofList raw) read).Grounded := by
  apply grounded_of_raw_ne
  simpa using h

/-- Markup that shows nothing may be empty. -/
theorem grounded_of_quiet {spans : List Span} (h : ∀ span ∈ spans, ∃ raw, span = .markup raw "") :
    ∀ span ∈ spans, span.Grounded := by
  intro span hspan
  obtain ⟨raw, rfl⟩ := h span hspan
  exact fun _ => rfl

/-- Markup that is not read as anything contributes nothing. -/
theorem join_plain_of_quiet {spans : List Span} (h : ∀ span ∈ spans, ∃ raw, span = .markup raw "") :
    String.join (spans.map plain) = "" := by
  apply String.toList_injective
  rw [toList_join_plain]
  apply List.flatMap_eq_nil_iff.mpr
  intro span hspan
  obtain ⟨raw, rfl⟩ := h span hspan
  rfl

/-- A character of the plain text belongs to one of the spans. -/
theorem exists_of_reading {spans : List Span} {front back : List Char} {c : Char}
    (h : reading spans = front ++ c :: back) :
    ∃ before span after left right, spans = before ++ span :: after ∧
      span.plain.toList = left ++ c :: right ∧ front = reading before ++ left := by
  induction spans generalizing front with
  | nil => simp at h
  | cons span spans ih =>
    rw [reading_cons] at h
    rcases append_eq_append_cons_cases h with ⟨right, hspan, -⟩ | ⟨later, rfl, hlater⟩
    · exact ⟨[], span, spans, front, right, rfl, hspan, rfl⟩
    · -- the character comes after this span
      obtain ⟨before, found, after, left, right, rfl, hfound, rfl⟩ := ih hlater
      refine ⟨span :: before, found, after, left, right, rfl, hfound, ?_⟩
      rw [reading_cons, List.append_assoc]

end Span

namespace AnnotatedText

namespace Builder

/-- A call without source changes nothing, text behind text makes the last span longer, and any
    other call is recorded as a span of its own. -/
theorem recorded_append_cases (b : Builder) (call : Span) :
    (call.raw = "" ∧ b.append call = b) ∨
    (∃ last raw earlier, call = .text raw ∧ b.recorded = .text last :: earlier ∧
      (b.append call).recorded = .text (last ++ raw) :: earlier) ∨
    (call.raw ≠ "" ∧ (b.append call).recorded = call :: b.recorded) := by
  -- a call without source is dropped, whichever it is
  by_cases hraw : call.raw = ""
  · left
    refine ⟨hraw, ?_⟩
    cases call with
    | text raw => exact if_pos (String.isEmpty_iff.mpr hraw)
    | markup raw interpreted => exact if_pos (String.isEmpty_iff.mpr hraw)
  · right
    cases call with
    -- markup stands for itself; text joins text that was recorded last
    | markup raw interpreted =>
      right
      have hempty : ¬ raw.isEmpty = true := by simpa using hraw
      have hstep : b.append (.markup raw interpreted) = b.appendMarkup raw interpreted := rfl
      rw [hstep, appendMarkup, if_neg hempty]
      exact ⟨hraw, rfl⟩
    | text raw =>
      have hempty : ¬ raw.isEmpty = true := by simpa using hraw
      have hstep : b.append (.text raw) = b.appendText raw := rfl
      rw [hstep, appendText, if_neg hempty]
      split
      · next last earlier hrecorded =>
        left
        exact ⟨last, raw, earlier, rfl, hrecorded, rfl⟩
      · right
        exact ⟨hraw, rfl⟩

/-- Markup of a kind is recorded call by call, and calls of other kinds leave it as it is. -/
theorem filter_recorded_append (b : Builder) {p : Span → Bool}
    (htext : ∀ raw, p (.text raw) = false) {call : Span} (hraw : p call = true → call.raw ≠ "") :
    (b.append call).recorded.filter p = [call].filter p ++ b.recorded.filter p := by
  rcases b.recorded_append_cases call with ⟨hempty, hsame⟩ |
    ⟨last, raw, earlier, rfl, hrecorded, hlonger⟩ | ⟨-, hcons⟩
  · -- a call that is dropped is not of the kind
    have hother : p call = false := by
      rw [← Bool.not_eq_true]
      exact fun hp => hraw hp hempty
    rw [hsame, List.filter_cons_of_neg (by simp [hother]), List.filter_nil, List.nil_append]
  · rw [hlonger, hrecorded]
    simp [htext]
  · rw [hcons, ← List.singleton_append, List.filter_append]

/-- What a filter that passes over all text keeps is what it keeps of the calls: calls are merged
    and dropped only where it does not look. -/
theorem filter_recorded_appendAll (b : Builder) {p : Span → Bool}
    (htext : ∀ raw, p (.text raw) = false) {calls : List Span}
    (hraw : ∀ call ∈ calls, p call = true → call.raw ≠ "") :
    (b.appendAll calls).recorded.filter p = (calls.filter p).reverse ++ b.recorded.filter p := by
  induction calls generalizing b with
  | nil => rfl
  | cons call calls ih =>
    obtain ⟨hcall, hcalls⟩ := List.forall_mem_cons.mp hraw
    rw [appendAll_cons, ih _ hcalls, b.filter_recorded_append htext hcall, ← List.append_assoc,
      ← List.singleton_append (l := calls), List.filter_append, List.reverse_append]
    -- one call alone is the same forwards and backwards
    cases hp : p call <;> simp [hp]

/-- What was recorded reads as the calls do. -/
theorem reading_recorded_append (b : Builder) {call : Span} (hcall : call.Grounded) :
    Span.reading (b.append call).recorded.reverse =
      Span.reading b.recorded.reverse ++ call.plain.toList := by
  rcases b.recorded_append_cases call with ⟨hempty, hsame⟩ |
    ⟨last, raw, earlier, rfl, hrecorded, hlonger⟩ | ⟨-, hcons⟩
  · rw [hsame, hcall hempty]
    simp
  · rw [hlonger, hrecorded]
    simp
  · rw [hcons]
    simp

/-- Recording calls adds to the plain text what the calls read as. -/
theorem reading_recorded_appendAll (b : Builder) {calls : List Span}
    (hcalls : ∀ call ∈ calls, call.Grounded) :
    Span.reading (b.appendAll calls).recorded.reverse =
      Span.reading b.recorded.reverse ++ Span.reading calls := by
  induction calls generalizing b with
  | nil => simp
  | cons call calls ih =>
    obtain ⟨hcall, hcalls⟩ := List.forall_mem_cons.mp hcalls
    rw [appendAll_cons, ih _ hcalls, b.reading_recorded_append hcall, Span.reading_cons,
      List.append_assoc]

/-- The plain text grows by what the call contributes. -/
theorem plain_append (b : Builder) {call : Span} (hcall : call.Grounded) :
    (b.append call).plain = b.plain ++ call.plain := by
  cases call with
  -- the plain text grows in each branch of the two calls, and stays where nothing is recorded
  | text raw =>
    show (b.appendText raw).plain = b.plain ++ raw
    unfold appendText
    split
    · next hempty => rw [String.isEmpty_iff.mp hempty, String.append_empty]
    · split <;> rfl
  | markup raw interpreted =>
    show (b.appendMarkup raw interpreted).plain = b.plain ++ interpreted
    unfold appendMarkup
    split
    · next hempty =>
      have hread : interpreted = "" := hcall (String.isEmpty_iff.mp hempty)
      rw [hread, String.append_empty]
    · rfl

/-- A run of calls adds its plain texts in order. -/
theorem plain_appendAll (b : Builder) {calls : List Span}
    (hcalls : ∀ call ∈ calls, call.Grounded) :
    (b.appendAll calls).plain = b.plain ++ String.join (calls.map Span.plain) := by
  induction calls generalizing b with
  | nil => simp
  | cons call calls ih =>
    obtain ⟨hcall, hcalls⟩ := List.forall_mem_cons.mp hcalls
    rw [appendAll_cons, ih _ hcalls, b.plain_append hcall, List.map_cons, String.join_cons,
      String.append_assoc]

/-- Recorded markup is one of the calls.  The same text was read before it and the same source lies
    behind it. -/
theorem exists_calls_of_recorded {origin : Nat} {calls : List Span}
    (hcalls : ∀ call ∈ calls, call.Grounded) {newer older : List Span} {raw read : String}
    (h : ((start origin).appendAll calls).recorded = newer ++ .markup raw read :: older) :
    ∃ before after, calls = before ++ .markup raw read :: after ∧
      Span.reading before = Span.reading older.reverse ∧
      Span.source after = Span.source newer.reverse := by
  -- from the last call backwards: it is the markup itself, or it lies behind it
  induction calls using List.reverseRecOn generalizing newer with
  | nil => simp [start] at h
  | append_singleton calls call ih =>
    obtain ⟨hinit, -⟩ := List.forall_mem_append.mp hcalls
    rw [appendAll_append, appendAll_cons, appendAll_nil] at h
    rcases ((start origin).appendAll calls).recorded_append_cases call with ⟨hempty, hsame⟩ |
      ⟨last, added, earlier, rfl, hrecorded, hlonger⟩ | ⟨-, hcons⟩
    · rw [hsame] at h
      obtain ⟨before, after, rfl, hbefore, hafter⟩ := ih hinit h
      refine ⟨before, after ++ [call], by simp, hbefore, ?_⟩
      rw [Span.source_append, hafter, Span.source_cons, hempty]
      simp
    · rw [hlonger] at h
      cases newer with
      | nil =>
        have hkind := (List.cons.inj h).1
        cases hkind
      | cons newest newer =>
        -- the newest span was text and is shorter without the call
        obtain ⟨rfl, hearlier⟩ := List.cons.inj h
        have hshorter : ((start origin).appendAll calls).recorded =
            (.text last :: newer) ++ .markup raw read :: older := by
          rw [hrecorded, hearlier]
          rfl
        obtain ⟨before, after, rfl, hbefore, hafter⟩ := ih hinit hshorter
        refine ⟨before, after ++ [.text added], by simp, hbefore, ?_⟩
        rw [Span.source_append, hafter]
        simp
    · rw [hcons] at h
      cases newer with
      | nil =>
        obtain ⟨rfl, hrecorded⟩ := List.cons.inj h
        refine ⟨calls, [], rfl, ?_, rfl⟩
        rw [← hrecorded, (start origin).reading_recorded_appendAll hinit]
        rfl
      | cons newest newer =>
        obtain ⟨rfl, hrecorded⟩ := List.cons.inj h
        obtain ⟨before, after, rfl, hbefore, hafter⟩ := ih hinit hrecorded
        refine ⟨before, after ++ [call], by simp, hbefore, ?_⟩
        rw [Span.source_append, hafter]
        simp

end Builder

/-- Markup of any kind is there in the order of the calls. -/
theorem filter_spans_ofCalls (origin : Nat) {p : Span → Bool} (htext : ∀ raw, p (.text raw) = false)
    {calls : List Span} (hraw : ∀ call ∈ calls, p call = true → call.raw ≠ "") :
    (ofCalls origin calls).spans.filter p = calls.filter p := by
  have hrecorded := (Builder.start origin).filter_recorded_appendAll htext hraw
  show ((Builder.start origin).appendAll calls).recorded.reverse.filter p = _
  rw [List.filter_reverse, hrecorded, List.reverse_append, List.reverse_reverse]
  rfl

/-- Markup in what was built is one of the calls.  The same text was read before it and the same
    source lies behind it. -/
theorem exists_calls_of_spans {origin : Nat} {calls : List Span}
    (hcalls : ∀ call ∈ calls, call.Grounded) {before after : List Span} {raw read : String}
    (h : (ofCalls origin calls).spans = before ++ .markup raw read :: after) :
    ∃ before' after', calls = before' ++ .markup raw read :: after' ∧
      Span.reading before' = Span.reading before ∧ Span.source after' = Span.source after := by
  have hrecorded : ((Builder.start origin).appendAll calls).recorded =
      after.reverse ++ .markup raw read :: before.reverse := by
    -- spans are recorded newest first
    apply List.reverse_injective
    rw [List.reverse_append, List.reverse_cons, List.reverse_reverse, List.reverse_reverse,
      List.append_assoc]
    exact h
  obtain ⟨before', after', heq, hbefore, hafter⟩ :=
    Builder.exists_calls_of_recorded hcalls hrecorded
  rw [List.reverse_reverse] at hbefore hafter
  exact ⟨before', after', heq, hbefore, hafter⟩

end AnnotatedText

end ProseLens
