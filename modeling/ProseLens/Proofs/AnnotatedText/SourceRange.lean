import ProseLens.Proofs.AnnotatedText.Mapping

/-!
# Source ranges of plain ranges

Every byte of the plain text comes from somewhere in the source: a byte of text from itself, a byte
of an interpretation from the whole of the markup that is interpreted (`Yields`).  The source range
of a plain range is the smallest range that holds everything its bytes come from.

The two ends are found independently.  The start of a range is the least byte that its first plain
byte comes from, and the stop is one past the greatest byte that its last plain byte comes from;
the bytes between them lie between these because look-ups are monotone.
-/

namespace ProseLens.AnnotatedText

/-- Byte `i` of the source is one that byte `p` of the plain text comes from. -/
def Yields (t : AnnotatedText) (i p : Nat) : Prop :=
  ∃ span low high, t.Placed span low high ∧ low.plain ≤ p ∧ p < high.plain ∧
    if span.isText then i = low.source + (p - low.plain) else low.source ≤ i ∧ i < high.source

/-- The source range from `first` to `last` holds everything that the plain bytes from `a` to `b`
    come from. -/
def Covers (t : AnnotatedText) (a b first last : Nat) : Prop :=
  ∀ p i, a ≤ p → p < b → t.Yields i p → first ≤ i ∧ i < last

/-- No smaller range than that from `first` to `last` covers the plain bytes from `a` to `b`. -/
structure SmallestCover (t : AnnotatedText) (a b first last : Nat) : Prop where
  covers : t.Covers a b first last
  least : ∀ first' last', t.Covers a b first' last' → first' ≤ first ∧ last ≤ last'

/-- Markup that contributes nothing yields nothing. -/
theorem not_yields_of_empty {t : AnnotatedText} {raw : String} {low high : Breakpoint}
    (hspan : t.Placed (.markup raw "") low high) {i p : Nat} (hlow : low.source ≤ i)
    (hhigh : i < high.source) : ¬ t.Yields i p := by
  rintro ⟨span, low', high', hspan', hlow', hhigh', hi⟩
  -- whichever span `i` is yielded by, `i` lies within its source
  have hwithin : low'.source ≤ i ∧ i < high'.source := by
    split at hi
    · next htext =>
      have hlength := hspan'.text_length htext .plain
      simp only [Axis.key_plain, Axis.other_plain] at hlength
      omega
    · exact hi
  -- so that span is the markup, which has no plain bytes
  obtain ⟨rfl, rfl, rfl⟩ := hspan.unique hspan' .source hlow hhigh hwithin.1 hwithin.2
  obtain ⟨before, later, -, rfl, rfl⟩ := hspan
  simp at hlow' hhigh'
  omega

namespace WellFormed

variable {t : AnnotatedText} (h : t.WellFormed)
include h

/-- A range that starts at a plain byte starts at or before everything that the byte comes from. -/
theorem lookup_start_le {i p : Nat} (hy : t.Yields i p) : t.lookup .plain .start p ≤ i := by
  obtain ⟨span, low, high, hspan, hlow, hhigh, hi⟩ := hy
  rw [h.lookup_start_of_placed .plain hspan hlow hhigh]
  -- a character of prose yields itself, one of markup any place of its raw text
  split at hi
  · next htext =>
    rw [if_pos htext, hi]
    exact Nat.le_refl _
  · next htext =>
    rw [if_neg htext]
    exact hi.1

/-- A range that stops after a plain byte stops behind everything that the byte comes from. -/
theorem lt_lookup_stop {i p : Nat} (hy : t.Yields i p) : i < t.lookup .plain .stop (p + 1) := by
  obtain ⟨span, low, high, hspan, hlow, hhigh, hi⟩ := hy
  -- the offset behind the character lies behind the start of its span too
  have hlt : Axis.plain.key low < p + 1 := Nat.lt_succ_of_le hlow
  rw [h.lookup_stop_of_placed .plain hspan hlt hhigh]
  split at hi
  · next htext =>
    rw [if_pos htext, hi]
    simp only [Axis.key_plain, Axis.other_plain]
    omega
  · next htext =>
    rw [if_neg htext]
    exact hi.2

/-- A range starts with a byte that its first plain byte comes from. -/
theorem yields_lookup_start {p : Nat} (hp : p < t.plain.utf8ByteSize) :
    t.Yields (t.lookup .plain .start p) p := by
  rw [h.utf8ByteSize_plain] at hp
  obtain ⟨span, low, high, hspan, hlow, hhigh⟩ := t.exists_placed .plain hp
  refine ⟨span, low, high, hspan, hlow, hhigh, ?_⟩
  rw [h.lookup_start_of_placed .plain hspan hlow hhigh]
  split
  · rfl
  · exact ⟨Nat.le_refl _, hspan.source_lt h⟩

/-- A range stops right behind a byte that its last plain byte comes from. -/
theorem yields_lookup_stop {p : Nat} (hp : p < t.plain.utf8ByteSize) :
    ∃ i, t.lookup .plain .stop (p + 1) = i + 1 ∧ t.Yields i p := by
  rw [h.utf8ByteSize_plain] at hp
  obtain ⟨span, low, high, hspan, hlow, hhigh⟩ := t.exists_placed .plain hp
  have hlt : Axis.plain.key low < p + 1 := Nat.lt_succ_of_le hlow
  have hsource := hspan.source_lt h
  simp only [Axis.key_plain] at hlow hhigh
  rw [h.lookup_stop_of_placed .plain hspan hlt hhigh]
  -- a byte of text comes from itself, and markup ends with a byte that its reading comes from
  by_cases htext : span.isText = true
  · refine ⟨low.source + (p - low.plain), ?_, span, low, high, hspan, hlow, hhigh, ?_⟩
    · rw [if_pos htext]
      simp only [Axis.key_plain, Axis.other_plain]
      omega
    · rw [if_pos htext]
  · refine ⟨high.source - 1, ?_, span, low, high, hspan, hlow, hhigh, ?_⟩
    · rw [if_neg htext]
      simp only [Axis.other_plain]
      omega
    · rw [if_neg htext]
      omega

/-- The start of a range that is not empty corresponds to a place before that of its stop. -/
theorem lookup_start_lt_stop {a b : Nat} (hab : a < b) (hb : b ≤ t.plain.utf8ByteSize) :
    t.lookup .plain .start a < t.lookup .plain .stop b := by
  have hfirst := h.lt_lookup_stop (h.yields_lookup_start (show a < t.plain.utf8ByteSize by omega))
  have hmono := h.lookup_mono .plain .stop (show a + 1 ≤ b by omega)
  omega

/-- The source range of a range that is not empty is not cut off: its stop lies behind its start. -/
theorem sourceRange_eq {a b : Nat} (hab : a < b) (hb : b ≤ t.plain.utf8ByteSize) :
    t.sourceRange a b = (t.lookup .plain .start a, t.lookup .plain .stop b) := by
  -- the range is cut off at its start, which is before the stop here
  have hlt := h.lookup_start_lt_stop hab hb
  simp only [sourceRange, lookupRange, Prod.mk.injEq, true_and]
  omega

/-- The source range of a plain range is the smallest one that covers it. -/
theorem smallestCover_sourceRange {a b : Nat} (hab : a < b) (hb : b ≤ t.plain.utf8ByteSize) :
    t.SmallestCover a b (t.sourceRange a b).1 (t.sourceRange a b).2 := by
  rw [h.sourceRange_eq hab hb]
  refine ⟨?_, ?_⟩
  · intro p i hap hpb hy
    have hstart := h.lookup_mono .plain .start hap
    have hstop := h.lookup_mono .plain .stop (show p + 1 ≤ b by omega)
    exact ⟨Nat.le_trans hstart (h.lookup_start_le hy),
      Nat.lt_of_lt_of_le (h.lt_lookup_stop hy) hstop⟩
  · intro first last hcovers
    -- the first and the last plain byte alone force both ends
    have hfirst := hcovers a _ (Nat.le_refl a) hab (h.yields_lookup_start (by omega))
    obtain ⟨i, hi, hy⟩ := h.yields_lookup_stop (show b - 1 < t.plain.utf8ByteSize by omega)
    rw [show b - 1 + 1 = b by omega] at hi
    have hlast := hcovers (b - 1) i (by omega) (by omega) hy
    refine ⟨hfirst.1, ?_⟩
    show t.lookup .plain .stop b ≤ last
    omega

/-- A range that touches an interpretation covers all of the markup that is interpreted. -/
theorem markup_within_sourceRange {a b p : Nat} (hb : b ≤ t.plain.utf8ByteSize) (hap : a ≤ p)
    (hpb : p < b) {raw interpreted : String} {low high : Breakpoint}
    (hspan : t.Placed (.markup raw interpreted) low high) (hlow : low.plain ≤ p)
    (hhigh : p < high.plain) :
    (t.sourceRange a b).1 ≤ low.source ∧ high.source ≤ (t.sourceRange a b).2 := by
  -- the plain byte comes from the first and from the last byte of the markup
  have hcover := (h.smallestCover_sourceRange (show a < b by omega) hb).covers
  have hsource := hspan.source_lt h
  have hyields : ∀ i, low.source ≤ i → i < high.source → t.Yields i p := by
    intro i hi hi'
    exact ⟨_, low, high, hspan, hlow, hhigh, by simp [hi, hi']⟩
  have hfirst := hcover p low.source hap hpb (hyields _ (Nat.le_refl _) hsource)
  have hlast := hcover p (high.source - 1) hap hpb (hyields _ (by omega) (by omega))
  omega

/-- The source range does not begin within markup that shows nothing. -/
theorem first_not_in_empty {a b : Nat} (hab : a < b) (hb : b ≤ t.plain.utf8ByteSize) {raw : String}
    {low high : Breakpoint} (hspan : t.Placed (.markup raw "") low high) :
    ¬ (low.source ≤ (t.sourceRange a b).1 ∧ (t.sourceRange a b).1 < high.source) := by
  rintro ⟨hlow, hhigh⟩
  exact not_yields_of_empty hspan hlow hhigh (h.yields_lookup_start (show a < _ by omega))

/-- The source range does not end within markup that shows nothing. -/
theorem last_not_in_empty {a b : Nat} (hab : a < b) (hb : b ≤ t.plain.utf8ByteSize) {raw : String}
    {low high : Breakpoint} (hspan : t.Placed (.markup raw "") low high) :
    ¬ (low.source < (t.sourceRange a b).2 ∧ (t.sourceRange a b).2 ≤ high.source) := by
  rw [h.sourceRange_eq hab hb]
  rintro ⟨hlow, hhigh⟩
  obtain ⟨i, hi, hy⟩ := h.yields_lookup_stop (show b - 1 < t.plain.utf8ByteSize by omega)
  rw [show b - 1 + 1 = b by omega] at hi
  simp only [hi] at hlow hhigh
  exact not_yields_of_empty hspan (by omega) (by omega) hy

/-- The source range of any two offsets is a range of the source. -/
theorem sourceRange_le (a b : Nat) :
    (t.sourceRange a b).1 ≤ (t.sourceRange a b).2 ∧ (t.sourceRange a b).2 ≤ t.sourceLength := by
  have hstart := h.lookup_le .plain .start a
  have hstop := h.lookup_le .plain .stop b
  rw [h.sourceLength_eq]
  exact ⟨Nat.le_max_right _ _, Nat.max_le.mpr ⟨hstop, hstart⟩⟩

end WellFormed

/-- Whatever was recorded: the source range of plain bytes is the smallest one that holds all that
    they come from.  It is not empty, neither its first nor its last byte belongs to markup that
    contributes nothing, and it covers all of any markup whose interpretation it touches.  A
    reversed, empty or overlong range of plain text still gives a range within the source. -/
theorem sourceRange_smallest {t : AnnotatedText} {origin : Nat} {calls : List Span}
    (ht : t = ofCalls origin calls) (a b : Nat) {first last : Nat}
    (hrange : t.sourceRange a b = (first, last)) :
    (a < b → b ≤ t.plain.utf8ByteSize →
      t.SmallestCover a b first last ∧ first < last ∧
      (∀ raw low high, t.Placed (.markup raw "") low high →
        ¬ (low.source ≤ first ∧ first < high.source) ∧
        ¬ (low.source < last ∧ last ≤ high.source)) ∧
      (∀ raw interpreted low high p, t.Placed (.markup raw interpreted) low high →
        low.plain ≤ p → p < high.plain → a ≤ p → p < b →
        first ≤ low.source ∧ high.source ≤ last)) ∧
    first ≤ last ∧ last ≤ t.sourceLength := by
  have h : t.WellFormed := ht ▸ wellFormed_ofCalls origin calls
  have hfirst : first = (t.sourceRange a b).1 := by rw [hrange]
  have hlast : last = (t.sourceRange a b).2 := by rw [hrange]
  rw [hfirst, hlast]
  refine ⟨?_, h.sourceRange_le a b⟩
  intro hab hb
  refine ⟨h.smallestCover_sourceRange hab hb, ?_, ?_, ?_⟩
  · rw [h.sourceRange_eq hab hb]
    exact h.lookup_start_lt_stop hab hb
  · intro raw low high hspan
    exact ⟨h.first_not_in_empty hab hb hspan, h.last_not_in_empty hab hb hspan⟩
  -- markup that shows a byte of the range is covered as a whole
  · intro raw interpreted low high p hspan hlow hhigh hap hpb
    exact h.markup_within_sourceRange hb hap hpb hspan hlow hhigh

/-- A citation, a comment and a full stop: the end of the citation's word covers the citation and
    not the comment. -/
theorem sourceRange_smallest_citation :
    ∃ t : AnnotatedText,
      t = ofCalls 0
        [.text "See ", .markup "\\cite\x7bx\x7d" "Dummy0", .markup "%c\n" "", .text "."] ∧
      t.sourceRange 6 10 = (4, 12) ∧ t.SmallestCover 6 10 4 12 ∧ t.sourceLength = 16 := by
  refine ⟨_, rfl, by decide +kernel, ?_, by decide +kernel⟩
  exact ((sourceRange_smallest rfl 6 10 (by decide +kernel)).1 (by decide) (by decide +kernel)).1

end ProseLens.AnnotatedText
