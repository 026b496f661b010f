import Mathlib.Order.Monotone.Defs
import ProseLens.Proofs.AnnotatedText.Mapping

/-!
# There and back again

Taking a plain offset to the source and back rounds it down to the start of the interpretation that
it lies inside of, and leaves every other offset alone.  Taking a source offset to the plain text
and back rounds it down too, past all markup before it that contributes nothing.

Breakpoints are the fixed points that carry the proofs: a source offset that does not survive the
way to the plain text and back was sent to the plain side of a breakpoint (`plainOffset_cases`), and
no breakpoint stands inside an interpretation.
-/

namespace ProseLens.AnnotatedText

/-- The plain offset `p` lies strictly inside the interpretation of some markup. -/
def Inside (t : AnnotatedText) (p : Nat) : Prop :=
  ∃ raw interpreted low high, t.Placed (.markup raw interpreted) low high ∧
    low.plain < p ∧ p < high.plain

/-- No breakpoint stands inside an interpretation. -/
theorem not_inside_after {t : AnnotatedText} {first : List Span} (hfirst : first <+: t.spans) :
    ¬ t.Inside (Breakpoint.after first).plain := by
  rintro ⟨raw, interpreted, low, high, hspan, hlow, hhigh⟩
  rcases hspan.before_or_behind hfirst with hbefore | hbehind
  · have hplain : (Breakpoint.after first).plain ≤ low.plain := hbefore .plain
    omega
  · have hplain : high.plain ≤ (Breakpoint.after first).plain := hbehind .plain
    omega

namespace WellFormed

variable {t : AnnotatedText} (h : t.WellFormed)
include h

/-- The plain text begins where the source begins. -/
theorem sourceOffset_zero : t.sourceOffset 0 = 0 := h.lookup_lowest_zero .plain

/-- The source begins where the plain text begins. -/
theorem plainOffset_zero : t.plainOffset 0 = 0 := h.lookup_lowest_zero .source

/-- The source side of a breakpoint goes to its plain side. -/
theorem plainOffset_after {first : List Span} (hfirst : first <+: t.spans) :
    t.plainOffset (Breakpoint.after first).source = (Breakpoint.after first).plain := by
  rcases List.eq_nil_or_concat first with rfl | ⟨before, span, rfl⟩
  · exact h.plainOffset_zero
  · obtain ⟨later, hlater⟩ := hfirst
    rw [List.concat_eq_append] at hlater ⊢
    have hspan : t.Placed span (.after before) (.after (before ++ [span])) :=
      ⟨before, later, by simp [← hlater], rfl, rfl⟩
    exact h.lookup_lowest_of_end .source hspan (hspan.source_lt h)

/-- The plain side of a breakpoint goes to its source side, or to that of an earlier breakpoint with
    the same plain side. -/
theorem sourceOffset_after_le {first : List Span} (hfirst : first <+: t.spans) :
    t.sourceOffset (Breakpoint.after first).plain ≤ (Breakpoint.after first).source := by
  by_cases hzero : (Breakpoint.after first).plain = 0
  · rw [hzero, h.sourceOffset_zero]
    exact Nat.zero_le _
  · have hle : (Breakpoint.after first).plain ≤ (Breakpoint.after t.spans).plain := by
      obtain ⟨second, hsecond⟩ := hfirst
      rw [← hsecond, Breakpoint.plain_after_append]
      omega
    obtain ⟨span, low, high, hspan, hlow, hhigh⟩ :=
      t.exists_placed .plain (show (Breakpoint.after first).plain - 1 < _ by simp; omega)
    simp only [Axis.key_plain] at hlow hhigh
    -- the breakpoint is not inside the span that ends there, hence at the end of that span
    rcases hspan.before_or_behind hfirst with hbefore | hbehind
    · have hplain : (Breakpoint.after first).plain ≤ low.plain := hbefore .plain
      omega
    · have hplain : high.plain ≤ (Breakpoint.after first).plain := hbehind .plain
      rw [show (Breakpoint.after first).plain = high.plain by omega]
      have hend : t.sourceOffset high.plain = high.source :=
        h.lookup_lowest_of_end .plain hspan (by simp; omega)
      rw [hend]
      exact hbehind .source

/-- A plain offset within text or at its end goes there and back to itself. -/
theorem plainOffset_sourceOffset_of_text {span : Span} {low high : Breakpoint} {p : Nat}
    (hspan : t.Placed span low high) (htext : span.isText = true) (hlow : low.plain < p)
    (hhigh : p ≤ high.plain) : t.plainOffset (t.sourceOffset p) = p := by
  have hlength : high.source + low.plain = low.source + high.plain :=
    hspan.text_length htext .plain
  -- and back: the source offset lies in the source range of the same span
  have hsource : t.sourceOffset p = low.source + (p - low.plain) :=
    h.lookup_lowest_of_text .plain hspan htext hlow hhigh
  have hplain : t.plainOffset (low.source + (p - low.plain)) = _ :=
    h.lookup_lowest_of_text .source hspan htext (by simp; omega) (by simp; omega)
  rw [hsource, hplain]
  simp only [Axis.key_source, Axis.other_source]
  omega

/-- A plain offset inside an interpretation goes there and back to its start. -/
theorem plainOffset_sourceOffset_of_inside {raw interpreted : String} {low high : Breakpoint}
    {p : Nat} (hspan : t.Placed (.markup raw interpreted) low high) (hlow : low.plain < p)
    (hhigh : p < high.plain) : t.plainOffset (t.sourceOffset p) = low.plain := by
  have hsource : t.sourceOffset p = low.source :=
    h.lookup_lowest_of_markup .plain hspan (by simp) hlow hhigh
  obtain ⟨before, later, hspans, rfl, rfl⟩ := hspan
  rw [hsource]
  exact h.plainOffset_after ⟨_, hspans.symm⟩

/-- A plain offset outside of all interpretations goes there and back to itself. -/
theorem plainOffset_sourceOffset_of_not_inside {p : Nat} (hp : p ≤ t.plain.utf8ByteSize)
    (hinside : ¬ t.Inside p) : t.plainOffset (t.sourceOffset p) = p := by
  by_cases hzero : p = 0
  · rw [hzero, h.sourceOffset_zero, h.plainOffset_zero]
  · rw [h.utf8ByteSize_plain] at hp
    obtain ⟨span, low, high, hspan, hlow, hhigh⟩ :=
      t.exists_placed .plain (show p - 1 < Axis.plain.key (.after t.spans) by simp; omega)
    simp only [Axis.key_plain] at hlow hhigh
    cases span with
    | text raw => exact h.plainOffset_sourceOffset_of_text hspan rfl (by omega) (by omega)
    | markup raw interpreted =>
      -- the byte before the offset is in the interpretation, and the offset is not
      have hend : p = high.plain := by
        by_contra hne
        exact hinside ⟨raw, interpreted, low, high, hspan, by omega, by omega⟩
      have hsource : t.sourceOffset high.plain = high.source :=
        h.lookup_lowest_of_end .plain hspan (by simp; omega)
      obtain ⟨before, later, hspans, rfl, rfl⟩ := hspan
      rw [hend, hsource]
      exact h.plainOffset_after ⟨later, by simp [hspans]⟩

/-- From the plain text to the source and back never leads forward. -/
theorem plainOffset_sourceOffset_le (p : Nat) : t.plainOffset (t.sourceOffset p) ≤ p := by
  -- inside an interpretation, elsewhere in the plain text, and past its end
  by_cases hp : p ≤ t.plain.utf8ByteSize
  · by_cases hinside : t.Inside p
    · obtain ⟨raw, interpreted, low, high, hspan, hlow, hhigh⟩ := hinside
      rw [h.plainOffset_sourceOffset_of_inside hspan hlow hhigh]
      exact Nat.le_of_lt hlow
    · exact Nat.le_of_eq (h.plainOffset_sourceOffset_of_not_inside hp hinside)
  · have hle := h.lookup_le .source .lowest (t.sourceOffset p)
    rw [h.utf8ByteSize_plain] at hp
    simp only [Axis.other_source] at hle
    exact Nat.le_trans hle (by omega)

/-- A source offset goes to the plain text and back to itself, or to the plain side of a breakpoint
    at or before it. -/
theorem plainOffset_cases (s : Nat) :
    t.sourceOffset (t.plainOffset s) = s ∨
      ∃ first, first <+: t.spans ∧ t.plainOffset s = (Breakpoint.after first).plain ∧
        (Breakpoint.after first).source ≤ s := by
  by_cases hzero : s = 0
  · left
    rw [hzero, h.plainOffset_zero, h.sourceOffset_zero]
  · by_cases hend : (Breakpoint.after t.spans).source < s
    · right
      exact ⟨t.spans, List.prefix_refl _, h.lookup_of_lt .source hend, Nat.le_of_lt hend⟩
    · obtain ⟨span, low, high, hspan, hlow, hhigh⟩ :=
        t.exists_placed .source (show s - 1 < Axis.source.key (.after t.spans) by simp; omega)
      simp only [Axis.key_source] at hlow hhigh
      by_cases htext : span.isText = true
      · left
        have hlength : high.source + low.plain = low.source + high.plain :=
          hspan.text_length htext .plain
        have hplain : t.plainOffset s = low.plain + (s - low.source) :=
          h.lookup_lowest_of_text .source hspan htext (by simp; omega) (by simp; omega)
        have hsource : t.sourceOffset (low.plain + (s - low.source)) = _ :=
          h.lookup_lowest_of_text .plain hspan htext (by simp; omega) (by simp; omega)
        rw [hplain, hsource]
        simp only [Axis.key_plain, Axis.other_plain]
        omega
      · right
        -- the end of markup is the breakpoint behind it, all else in it goes to the one before
        by_cases hclose : s = high.source
        · have hplain : t.plainOffset high.source = high.plain :=
            h.lookup_lowest_of_end .source hspan (hspan.source_lt h)
          obtain ⟨before, later, hspans, rfl, rfl⟩ := hspan
          refine ⟨before ++ [span], ⟨later, by simp [hspans]⟩, ?_, Nat.le_of_eq hclose.symm⟩
          rw [hclose, hplain]
        · have hplain : t.plainOffset s = low.plain :=
            h.lookup_lowest_of_markup .source hspan htext (by simp; omega) (by simp; omega)
          obtain ⟨before, later, hspans, rfl, rfl⟩ := hspan
          exact ⟨before, ⟨_, hspans.symm⟩, hplain, by omega⟩

/-- From the source to the plain text and back never leads forward either. -/
theorem sourceOffset_plainOffset_le (s : Nat) : t.sourceOffset (t.plainOffset s) ≤ s := by
  rcases h.plainOffset_cases s with heq | ⟨first, hfirst, hplain, hsource⟩
  · exact Nat.le_of_eq heq
  · rw [hplain]
    exact Nat.le_trans (h.sourceOffset_after_le hfirst) hsource

/-- What comes from a source offset survives the way there and back. -/
theorem plainOffset_sourceOffset_plainOffset (s : Nat) :
    t.plainOffset (t.sourceOffset (t.plainOffset s)) = t.plainOffset s := by
  rcases h.plainOffset_cases s with heq | ⟨first, hfirst, hplain, -⟩
  · rw [heq]
  · -- the plain side of a breakpoint is outside of interpretations
    have hle := h.lookup_le .source .lowest s
    refine h.plainOffset_sourceOffset_of_not_inside ?_ ?_
    · rw [h.utf8ByteSize_plain]
      exact hle
    · rw [hplain]
      exact not_inside_after hfirst

/-- The offsets that go there and back to themselves are those outside of interpretations. -/
theorem plainOffset_sourceOffset_eq_iff (p : Nat) :
    t.plainOffset (t.sourceOffset p) = p ↔ p ≤ t.plain.utf8ByteSize ∧ ¬ t.Inside p := by
  constructor
  · intro hfixed
    refine ⟨?_, ?_⟩
    · rw [← hfixed, h.utf8ByteSize_plain]
      exact h.lookup_le .source .lowest (t.sourceOffset p)
    · rintro ⟨raw, interpreted, low, high, hspan, hlow, hhigh⟩
      -- from the inside the way back leads to the end of the span, which is beyond `p`
      rw [h.plainOffset_sourceOffset_of_inside hspan hlow hhigh] at hfixed
      omega
  · rintro ⟨hp, hinside⟩
    exact h.plainOffset_sourceOffset_of_not_inside hp hinside

end WellFormed

/-- Whatever was recorded: both directions of the mapping are monotone and stay within the other
    text, and going there and back never leads forward.  What comes from the source survives the way
    there and back, and of the other plain offsets those inside an interpretation go back to its
    start.  So there and back is a monotone, deflationary and idempotent operator on plain offsets,
    and its fixed points are the offsets of the plain text that lie outside of interpretations. -/
theorem offsets_round_down {t : AnnotatedText} {origin : Nat} {calls : List Span}
    (ht : t = ofCalls origin calls) :
    Monotone t.sourceOffset ∧ Monotone t.plainOffset ∧
    (∀ p, t.sourceOffset p ≤ t.sourceLength) ∧
    (∀ s, t.plainOffset s ≤ t.plain.utf8ByteSize) ∧
    (∀ p, t.plainOffset (t.sourceOffset p) ≤ p) ∧
    (∀ s, t.sourceOffset (t.plainOffset s) ≤ s) ∧
    (∀ s, t.plainOffset (t.sourceOffset (t.plainOffset s)) = t.plainOffset s) ∧
    (∀ p ≤ t.plain.utf8ByteSize, t.plainOffset (t.sourceOffset p) = p ↔ ¬ t.Inside p) ∧
    (∀ raw interpreted low high p, t.Placed (.markup raw interpreted) low high →
      low.plain < p → p < high.plain → t.plainOffset (t.sourceOffset p) = low.plain) ∧
    Monotone (t.plainOffset ∘ t.sourceOffset) ∧
    (∀ p, (t.plainOffset ∘ t.sourceOffset) ((t.plainOffset ∘ t.sourceOffset) p) =
      (t.plainOffset ∘ t.sourceOffset) p) ∧
    (∀ p, (t.plainOffset ∘ t.sourceOffset) p = p ↔
      p ≤ t.plain.utf8ByteSize ∧ ¬ t.Inside p) := by
  have h : t.WellFormed := ht ▸ wellFormed_ofCalls origin calls
  have hsource : Monotone t.sourceOffset := fun p q hpq => h.lookup_mono .plain .lowest hpq
  have hplain : Monotone t.plainOffset := fun s r hsr => h.lookup_mono .source .lowest hsr
  -- what is left are the two bounds, the fixed points before the end, and the inside of markup
  refine ⟨hsource, hplain, ?_, ?_, h.plainOffset_sourceOffset_le, h.sourceOffset_plainOffset_le,
    h.plainOffset_sourceOffset_plainOffset, ?_, ?_, hplain.comp hsource, ?_,
    h.plainOffset_sourceOffset_eq_iff⟩
  · intro p
    rw [h.sourceLength_eq]
    exact h.lookup_le .plain .lowest p
  · intro s
    rw [h.utf8ByteSize_plain]
    exact h.lookup_le .source .lowest s
  · intro p hp
    rw [h.plainOffset_sourceOffset_eq_iff]
    exact and_iff_right hp
  · intro raw interpreted low high p hspan hlow hhigh
    exact h.plainOffset_sourceOffset_of_inside hspan hlow hhigh
  · intro p
    exact h.plainOffset_sourceOffset_plainOffset (t.sourceOffset p)

/-- Inside the word of a citation an offset goes back to where the word begins, and at its end it
    stays, although a comment follows there. -/
theorem offsets_round_down_citation :
    ∃ t : AnnotatedText,
      t = ofCalls 0
        [.text "See ", .markup "\\cite\x7bx\x7d" "Dummy0", .markup "%c\n" "", .text "."] ∧
      t.plainOffset (t.sourceOffset 7) = 4 ∧ t.plainOffset (t.sourceOffset 10) = 10 ∧
      ¬ t.Inside 10 := by
  refine ⟨_, rfl, by decide +kernel, by decide +kernel, ?_⟩
  obtain ⟨-, -, -, -, -, -, -, hiff, -⟩ := offsets_round_down rfl
  exact (hiff 10 (by decide +kernel)).mp (by decide +kernel)

end ProseLens.AnnotatedText
