import Mathlib.Order.Closure
import ProseLens.Proofs.AnnotatedText.RoundTrip
import ProseLens.Proofs.AnnotatedText.SourceRange

/-!
# Ranges there and back again

Taking a plain range to the source and back widens it: an end that lies inside an interpretation
moves outwards to the boundary of that interpretation, and any other end stays where it is.  The
ends move independently of each other, the start by `startBack` and the stop by `stopBack`.

Each end is settled by one span, the one that holds the first plain byte or the last.  An end in
text comes back to itself, and an end in markup comes back to the breakpoint on its side of the
markup, from where the way to the source leads to the same place again.  That is why the widened
range has the same source range, and why widening it once more changes nothing.

## Key results

- `startBack_of_placed`, `stopBack_of_placed`: where the ends come back to
- `roundTrip_eq`: the range there and back has these ends
- `widening`: there and back as a closure operator on the plain ranges
-/

namespace ProseLens.AnnotatedText

/-- A range of plain text with at least one byte. -/
@[ext] structure Stretch (t : AnnotatedText) where
  /-- The first byte. -/
  start : Nat
  /-- One past the last byte. -/
  stop : Nat
  start_lt_stop : start < stop
  stop_le : stop ≤ t.plain.utf8ByteSize

namespace Stretch

variable {t : AnnotatedText}

/-- A stretch begins before the end of the plain text. -/
theorem start_lt (r : t.Stretch) : r.start < t.plain.utf8ByteSize :=
  Nat.lt_of_lt_of_le r.start_lt_stop r.stop_le

/-- A stretch ends behind the start of the plain text. -/
theorem stop_pos (r : t.Stretch) : 0 < r.stop :=
  Nat.lt_of_le_of_lt (Nat.zero_le _) r.start_lt_stop

/-- Ranges are ordered by inclusion. -/
instance : PartialOrder t.Stretch where
  le r r' := r'.start ≤ r.start ∧ r.stop ≤ r'.stop
  le_refl r := ⟨Nat.le_refl _, Nat.le_refl _⟩
  le_trans r r' r'' h h' := ⟨Nat.le_trans h'.1 h.1, Nat.le_trans h.2 h'.2⟩
  le_antisymm r r' h h' := Stretch.ext (Nat.le_antisymm h'.1 h.1) (Nat.le_antisymm h.2 h'.2)

end Stretch

/-- Where the start of a plain range comes back to from the source. -/
def startBack (t : AnnotatedText) (a : Nat) : Nat :=
  t.lookup .source .start (t.lookup .plain .start a)

/-- Where the stop of a plain range comes back to from the source. -/
def stopBack (t : AnnotatedText) (b : Nat) : Nat :=
  t.lookup .source .stop (t.lookup .plain .stop b)

namespace WellFormed

variable {t : AnnotatedText} (h : t.WellFormed)
include h

/-! ## The two ends -/

/-- A start in text comes back to itself, one in markup to the start of the interpretation. -/
theorem startBack_of_placed {span : Span} {low high : Breakpoint} {a : Nat}
    (hspan : t.Placed span low high) (hlow : low.plain ≤ a) (hhigh : a < high.plain) :
    t.startBack a = if span.isText then a else low.plain := by
  have hsource := hspan.source_lt h
  have hthere := h.lookup_start_of_placed .plain hspan hlow hhigh
  simp only [Axis.key_plain, Axis.other_plain] at hthere
  rw [startBack, hthere]
  by_cases htext : span.isText = true
  · -- text is as long in the source, so that the source offset is in the same span
    have hlength : high.source + low.plain = low.source + high.plain :=
      hspan.text_length htext .plain
    rw [if_pos htext, if_pos htext, h.lookup_start_of_placed .source hspan (by simp)
      (by simp only [Axis.key_source]; omega), if_pos htext]
    simp only [Axis.key_source, Axis.other_source]
    omega
  · rw [if_neg htext, if_neg htext, h.lookup_start_of_placed .source hspan (by simp) hsource,
      if_neg htext, Axis.other_source]

/-- A stop in text comes back to itself, one in markup to the end of the interpretation. -/
theorem stopBack_of_placed {span : Span} {low high : Breakpoint} {b : Nat}
    (hspan : t.Placed span low high) (hlow : low.plain < b) (hhigh : b ≤ high.plain) :
    t.stopBack b = if span.isText then b else high.plain := by
  have hsource := hspan.source_lt h
  have hthere := h.lookup_stop_of_placed .plain hspan hlow hhigh
  simp only [Axis.key_plain, Axis.other_plain] at hthere
  rw [stopBack, hthere]
  -- there and back stays in the span, and within text it is the identity
  by_cases htext : span.isText = true
  · have hlength : high.source + low.plain = low.source + high.plain :=
      hspan.text_length htext .plain
    rw [if_pos htext, if_pos htext, h.lookup_stop_of_placed .source hspan
      (by simp only [Axis.key_source]; omega) (by simp only [Axis.key_source]; omega), if_pos htext]
    simp only [Axis.key_source, Axis.other_source]
    omega
  · rw [if_neg htext, if_neg htext, h.lookup_stop_of_placed .source hspan hsource (by simp),
      if_neg htext, Axis.other_source]

/-- The span that holds the byte at the start of a range. -/
private theorem exists_placed_start {a : Nat} (ha : a < t.plain.utf8ByteSize) :
    ∃ span low high, t.Placed span low high ∧ low.plain ≤ a ∧ a < high.plain := by
  rw [h.utf8ByteSize_plain] at ha
  exact t.exists_placed .plain ha

/-- The span that holds the byte before the stop of a range. -/
private theorem exists_placed_stop {b : Nat} (hb : 0 < b) (hle : b ≤ t.plain.utf8ByteSize) :
    ∃ span low high, t.Placed span low high ∧ low.plain < b ∧ b ≤ high.plain := by
  obtain ⟨span, low, high, hspan, hlow, hhigh⟩ :=
    h.exists_placed_start (show b - 1 < t.plain.utf8ByteSize by omega)
  exact ⟨span, low, high, hspan, by omega, by omega⟩

/-- The start of a stretch moves backwards if at all. -/
theorem startBack_le {a : Nat} (ha : a < t.plain.utf8ByteSize) : t.startBack a ≤ a := by
  obtain ⟨span, low, high, hspan, hlow, hhigh⟩ := h.exists_placed_start ha
  rw [h.startBack_of_placed hspan hlow hhigh]
  split <;> omega

/-- The stop of a stretch moves forwards if at all. -/
theorem le_stopBack {b : Nat} (hb : 0 < b) (hle : b ≤ t.plain.utf8ByteSize) :
    b ≤ t.stopBack b := by
  obtain ⟨span, low, high, hspan, hlow, hhigh⟩ := h.exists_placed_stop hb hle
  rw [h.stopBack_of_placed hspan hlow hhigh]
  split <;> omega

/-- The stop of a stretch does not move past the end of the plain text. -/
theorem stopBack_le (b : Nat) : t.stopBack b ≤ t.plain.utf8ByteSize := by
  rw [h.utf8ByteSize_plain]
  exact h.lookup_le .source .stop _

/-- Starts keep their order. -/
theorem startBack_mono {a a' : Nat} (hle : a ≤ a') : t.startBack a ≤ t.startBack a' :=
  h.lookup_mono .source .start (h.lookup_mono .plain .start hle)

/-- Stops keep their order. -/
theorem stopBack_mono {b b' : Nat} (hle : b ≤ b') : t.stopBack b ≤ t.stopBack b' :=
  h.lookup_mono .source .stop (h.lookup_mono .plain .stop hle)

/-- The way to the source leads to the same place from where a start comes back to. -/
theorem lookup_startBack {a : Nat} (ha : a < t.plain.utf8ByteSize) :
    t.lookup .plain .start (t.startBack a) = t.lookup .plain .start a := by
  obtain ⟨span, low, high, hspan, hlow, hhigh⟩ := h.exists_placed_start ha
  rw [h.startBack_of_placed hspan hlow hhigh]
  split
  · rfl
  · next htext =>
    have hfirst : t.lookup .plain .start low.plain = _ :=
      h.lookup_start_of_placed .plain hspan (Nat.le_refl _) (Nat.lt_of_le_of_lt hlow hhigh)
    rw [hfirst, h.lookup_start_of_placed .plain hspan hlow hhigh, if_neg htext, if_neg htext]

/-- The way to the source leads to the same place from where a stop comes back to. -/
theorem lookup_stopBack {b : Nat} (hb : 0 < b) (hle : b ≤ t.plain.utf8ByteSize) :
    t.lookup .plain .stop (t.stopBack b) = t.lookup .plain .stop b := by
  obtain ⟨span, low, high, hspan, hlow, hhigh⟩ := h.exists_placed_stop hb hle
  rw [h.stopBack_of_placed hspan hlow hhigh]
  split
  · rfl
  · next htext =>
    have hlast : t.lookup .plain .stop high.plain = _ :=
      h.lookup_stop_of_placed .plain hspan (Nat.lt_of_lt_of_le hlow hhigh) (Nat.le_refl _)
    rw [hlast, h.lookup_stop_of_placed .plain hspan hlow hhigh, if_neg htext, if_neg htext]

/-- The starts that stay are those outside of interpretations. -/
theorem startBack_eq_iff {a : Nat} (ha : a < t.plain.utf8ByteSize) :
    t.startBack a = a ↔ ¬ t.Inside a := by
  constructor
  · rintro hstays ⟨raw, interpreted, low, high, hspan, hlow, hhigh⟩
    rw [h.startBack_of_placed hspan (Nat.le_of_lt hlow) hhigh, if_neg (by simp)] at hstays
    omega
  · intro hinside
    obtain ⟨span, low, high, hspan, hlow, hhigh⟩ := h.exists_placed_start ha
    rw [h.startBack_of_placed hspan hlow hhigh]
    cases span with
    | text raw => simp
    | markup raw interpreted =>
      -- a start that is in markup and not strictly inside is where the markup begins
      have hend : ¬ low.plain < a := fun hlt =>
        hinside ⟨raw, interpreted, low, high, hspan, hlt, hhigh⟩
      rw [if_neg (by simp)]
      omega

/-- The stops that stay are those outside of interpretations. -/
theorem stopBack_eq_iff {b : Nat} (hb : 0 < b) (hle : b ≤ t.plain.utf8ByteSize) :
    t.stopBack b = b ↔ ¬ t.Inside b := by
  constructor
  · rintro hstays ⟨raw, interpreted, low, high, hspan, hlow, hhigh⟩
    rw [h.stopBack_of_placed hspan hlow (Nat.le_of_lt hhigh), if_neg (by simp)] at hstays
    omega
  · intro hinside
    obtain ⟨span, low, high, hspan, hlow, hhigh⟩ := h.exists_placed_stop hb hle
    rw [h.stopBack_of_placed hspan hlow hhigh]
    cases span with
    | text raw => simp
    | markup raw interpreted =>
      -- a stop that is not inside of the markup is at its end
      have hend : ¬ b < high.plain := fun hlt =>
        hinside ⟨raw, interpreted, low, high, hspan, hlow, hlt⟩
      rw [if_neg (by simp)]
      omega

/-! ## The range -/

/-- A range comes back with both ends moved. -/
theorem roundTrip_eq (r : t.Stretch) :
    t.plainRange (t.sourceRange r.start r.stop).1 (t.sourceRange r.start r.stop).2 =
      (t.startBack r.start, t.stopBack r.stop) := by
  have hstart := h.startBack_le r.start_lt
  have hstop := h.le_stopBack r.stop_pos r.stop_le
  have hlt := r.start_lt_stop
  rw [h.sourceRange_eq r.start_lt_stop r.stop_le]
  -- neither range is cut off at its start
  show (t.startBack r.start, max (t.stopBack r.stop) (t.startBack r.start)) = _
  rw [Nat.max_eq_left (by omega)]

/-- The range that a plain range comes back as. -/
def widen (r : t.Stretch) : t.Stretch where
  start := t.startBack r.start
  stop := t.stopBack r.stop
  start_lt_stop := by
    have hstart := h.startBack_le r.start_lt
    have hstop := h.le_stopBack r.stop_pos r.stop_le
    have hlt := r.start_lt_stop
    omega
  stop_le := h.stopBack_le r.stop

/-- The widened range has the same source range. -/
theorem sourceRange_widen (r : t.Stretch) :
    t.sourceRange (h.widen r).start (h.widen r).stop = t.sourceRange r.start r.stop := by
  rw [h.sourceRange_eq (h.widen r).start_lt_stop (h.widen r).stop_le,
    h.sourceRange_eq r.start_lt_stop r.stop_le]
  show (t.lookup .plain .start (t.startBack r.start), t.lookup .plain .stop (t.stopBack r.stop)) = _
  rw [h.lookup_startBack r.start_lt, h.lookup_stopBack r.stop_pos r.stop_le]

/-- Widening once more changes nothing, since the way back starts from the same source range. -/
theorem widen_widen (r : t.Stretch) : h.widen (h.widen r) = h.widen r := by
  have hthere := h.roundTrip_eq (h.widen r)
  rw [h.sourceRange_widen, h.roundTrip_eq] at hthere
  obtain ⟨hstart, hstop⟩ := Prod.mk.inj hthere
  exact Stretch.ext hstart.symm hstop.symm

/-- The round trip leaves alone exactly the stretches that cut no interpretation. -/
theorem widen_eq_iff (r : t.Stretch) :
    h.widen r = r ↔ ¬ t.Inside r.start ∧ ¬ t.Inside r.stop := by
  rw [← h.startBack_eq_iff r.start_lt, ← h.stopBack_eq_iff r.stop_pos r.stop_le, Stretch.ext_iff]
  rfl

/-- There and back, as a closure operator on the plain ranges. -/
def widening : ClosureOperator t.Stretch :=
  ClosureOperator.mk' h.widen
    (fun _ _ hle => ⟨h.startBack_mono hle.1, h.stopBack_mono hle.2⟩)
    (fun r => ⟨h.startBack_le r.start_lt, h.le_stopBack r.stop_pos r.stop_le⟩)
    (fun r => le_of_eq (h.widen_widen r))

end WellFormed

/-- Whatever was recorded: there and back is a closure operator on the ranges of plain text,
    ordered by inclusion.  A widened range has the source range it came from.  A range stays as it
    is if and only if neither end lies inside an interpretation; an end that does moves to the
    boundary of that interpretation, and the other end does not move with it. -/
theorem round_trip_widens {t : AnnotatedText} {origin : Nat} {calls : List Span}
    (ht : t = ofCalls origin calls) :
    ∃ widening : ClosureOperator t.Stretch,
      (∀ r, t.plainRange (t.sourceRange r.start r.stop).1 (t.sourceRange r.start r.stop).2 =
        ((widening r).start, (widening r).stop)) ∧
      (∀ r, t.sourceRange (widening r).start (widening r).stop =
        t.sourceRange r.start r.stop) ∧
      (∀ r, widening r = r ↔ ¬ t.Inside r.start ∧ ¬ t.Inside r.stop) ∧
      (∀ r, (widening r).start = r.start ↔ ¬ t.Inside r.start) ∧
      (∀ r, (widening r).stop = r.stop ↔ ¬ t.Inside r.stop) ∧
      (∀ r raw interpreted low high, t.Placed (.markup raw interpreted) low high →
        (low.plain < r.start → r.start < high.plain → (widening r).start = low.plain) ∧
        (low.plain < r.stop → r.stop < high.plain → (widening r).stop = high.plain)) := by
  have h : t.WellFormed := ht ▸ wellFormed_ofCalls origin calls
  refine ⟨h.widening, h.roundTrip_eq, h.sourceRange_widen, h.widen_eq_iff, ?_, ?_, ?_⟩
  · intro r
    exact h.startBack_eq_iff r.start_lt
  · intro r
    exact h.stopBack_eq_iff r.stop_pos r.stop_le
  · intro r raw interpreted low high hspan
    constructor
    -- an end inside of markup moves to the boundary of the markup on its side
    · intro hlow hhigh
      exact h.startBack_of_placed hspan (Nat.le_of_lt hlow) hhigh
    · intro hlow hhigh
      exact h.stopBack_of_placed hspan hlow (Nat.le_of_lt hhigh)

/-- From inside the word of a citation to the full stop after it: the start moves to where the word
    begins, and the stop stays although a comment lies before it. -/
theorem round_trip_widens_citation :
    ∃ t : AnnotatedText,
      t = ofCalls 0
        [.text "See ", .markup "\\cite\x7bx\x7d" "Dummy0", .markup "%c\n" "", .text "."] ∧
      ∃ (r : t.Stretch) (widening : ClosureOperator t.Stretch),
        r.start = 6 ∧ r.stop = 11 ∧ t.Inside 6 ∧ ¬ t.Inside 11 ∧
        (widening r).start = 4 ∧ (widening r).stop = 11 ∧ widening (widening r) = widening r := by
  obtain ⟨widening, hback, -, -, hstart, hstop, -⟩ := @round_trip_widens _ 0
    [.text "See ", .markup "\\cite\x7bx\x7d" "Dummy0", .markup "%c\n" "", .text "."] rfl
  have hends := hback ⟨6, 11, by decide, by decide +kernel⟩
  -- the range starts inside the reading of the citation and ends with the text
  obtain ⟨hfirst, hlast⟩ := Prod.mk.inj (Eq.trans (show (4, 11) = _ by decide +kernel) hends)
  refine ⟨_, rfl, ⟨6, 11, by decide, by decide +kernel⟩, widening, rfl, rfl, ?_,
    (hstop _).mp hlast.symm, hfirst.symm, hlast.symm, widening.idempotent _⟩
  by_contra hinside
  have hstays := (hstart ⟨6, 11, by decide, by decide +kernel⟩).mpr hinside
  rw [← hfirst] at hstays
  exact absurd hstays (by decide)

end ProseLens.AnnotatedText
