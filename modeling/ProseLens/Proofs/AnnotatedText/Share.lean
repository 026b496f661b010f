import ProseLens.Proofs.AnnotatedText.Calls
import ProseLens.Proofs.AnnotatedText.Mapping
import ProseLens.Proofs.Text.Occurrence
import ProseLens.Proofs.Text.Encoding

/-!
# The plain text of a source range

What a range of source reads as, span by span.  `Span.shares a b` goes through the spans and takes
from each one that the range from byte `a` to byte `b` touches: of text, the characters within the
range; of markup, the whole interpretation.

The mapping finds the two ends of that plain text by two look-ups with different rules for the
inside of markup.  The start of the range corresponds to the end of what comes before the shares
(`Span.skipped`), and the stop to the end of the shares of a range that starts with the source.
What is skipped and what is shared make up the latter (`Span.skipped_append_shares`), and this one
law ties the look-ups together.

## Key results

- `Span.skipped_append_shares`: skipped and shared characters make up a beginning of the plain text
- `WellFormed.plainRange_eq`: the plain range of a source range, counted in such characters
- `plainSubstring_shares`: what the source range reads as
-/

namespace ProseLens

/-! ## Characters between two bytes -/

namespace Text

/-- The characters that begin at byte `a` or behind it and before byte `b`, of a text that itself
    begins at byte `place`. -/
def within (a b : Nat) : (place : Nat) → List Char → List Char
  | _, [] => []
  | place, c :: cs =>
    if a ≤ place ∧ place < b then c :: within a b (place + c.utf8Size) cs
    else within a b (place + c.utf8Size) cs

section Within

variable {a b place : Nat}

/-- The characters within a range are taken from two parts one after the other. -/
theorem within_append (cs ds : List Char) :
    within a b place (cs ++ ds) = within a b place cs ++ within a b (place + byteLength cs) ds := by
  induction cs generalizing place with
  | nil => rfl
  | cons c cs ih =>
    rw [List.cons_append, within, within, ih, byteLength_cons, Nat.add_assoc]
    split <;> rfl

/-- A text between the two bytes is there as a whole. -/
theorem within_of_between {cs : List Char} (ha : a ≤ place) (hb : place + byteLength cs ≤ b) :
    within a b place cs = cs := by
  induction cs generalizing place with
  | nil => rfl
  | cons c cs ih =>
    have hsize := c.utf8Size_pos
    rw [byteLength_cons] at hb
    rw [within, if_pos (by omega), ih (by omega) (by omega)]

/-- Nothing of a text that ends before the range is within it. -/
theorem within_of_before {cs : List Char} (ha : place + byteLength cs ≤ a) :
    within a b place cs = [] := by
  induction cs generalizing place with
  | nil => rfl
  | cons c cs ih =>
    have hsize := c.utf8Size_pos
    rw [byteLength_cons] at ha
    rw [within, if_neg (by omega), ih (by omega)]

/-- Nothing of a text that begins behind the range is within it. -/
theorem within_of_behind (cs : List Char) (hb : b ≤ place) : within a b place cs = [] := by
  induction cs generalizing place with
  | nil => rfl
  | cons c cs ih => rw [within, if_neg (by omega), ih (by omega)]

/-- The first byte does not matter for a text that begins there or later. -/
theorem within_of_le (cs : List Char) (ha : a ≤ place) :
    within a b place cs = within 0 b place cs := by
  induction cs generalizing place with
  | nil => rfl
  | cons c cs ih =>
    rw [within, within, ih (by omega)]
    simp only [ha, Nat.zero_le]

/-- The characters before a byte and those from there on. -/
theorem within_append_within (cs : List Char) (hab : a ≤ b) :
    within 0 a place cs ++ within a b place cs = within 0 b place cs := by
  induction cs generalizing place with
  | nil => rfl
  | cons c cs ih =>
    -- only in front of `a` do the first two windows both matter: behind it the left one is empty
    by_cases hplace : place < a
    · have hpair : within 0 a (place + c.utf8Size) cs ++ within a b (place + c.utf8Size) cs =
          within 0 b (place + c.utf8Size) cs := ih
      rw [within, if_pos ⟨Nat.zero_le _, hplace⟩, within, if_neg (by omega), within,
        if_pos ⟨Nat.zero_le _, by omega⟩, List.cons_append, hpair]
    · rw [within_of_behind _ (by omega), List.nil_append, within_of_le _ (by omega)]

/-- The characters before a place of the text. -/
theorem within_zero_of_append {cs front back : List Char} (hcs : cs = front ++ back) :
    within 0 (place + byteLength front) place cs = front := by
  rw [hcs, within_append, within_of_between (Nat.zero_le _) (Nat.le_refl _),
    within_of_behind _ (Nat.le_refl _), List.append_nil]

end Within

end Text

/-! ## What spans contribute to a range -/

namespace Span

/-- What a span that begins at byte `start` of the source contributes to the range from `a` to `b`:
    nothing if they do not overlap, else the characters within the range if it is text, and the
    whole interpretation if it is markup. -/
def share (a b start : Nat) (span : Span) : List Char :=
  if start < b ∧ a < start + span.raw.utf8ByteSize then
    match span with
    | text raw => Text.within a b start raw.toList
    | markup _ interpreted => interpreted.toList
  else []

/-- What spans contribute to the range from `a` to `b`, the first of which begins at byte
    `start`. -/
def shares (a b : Nat) : (start : Nat) → List Span → List Char
  | _, [] => []
  | start, span :: spans => span.share a b start ++ shares a b (start + span.raw.utf8ByteSize) spans

/-- What a span contributes before a range that starts at `a`: the characters before it if it is
    text, and the interpretation of markup that ends before it. -/
def skip (a start : Nat) : Span → List Char
  | text raw => Text.within 0 a start raw.toList
  | markup raw interpreted => if start + raw.utf8ByteSize ≤ a then interpreted.toList else []

/-- What spans contribute before a range that starts at `a`, the first of which begins at byte
    `start`. -/
def skipped (a : Nat) : (start : Nat) → List Span → List Char
  | _, [] => []
  | start, span :: spans => span.skip a start ++ skipped a (start + span.raw.utf8ByteSize) spans

variable {a b start : Nat} {span : Span}

/-- Text that does not overlap the range has no characters within it. -/
theorem share_text (raw : String) :
    (text raw).share a b start = Text.within a b start raw.toList := by
  unfold share
  split
  · rfl
  · next hapart =>
    rw [raw_text] at hapart
    by_cases hb : b ≤ start
    · rw [Text.within_of_behind _ hb]
    · rw [Text.within_of_before (by rw [Text.byteLength_toList]; omega)]

/-- Markup that the range touches is shared as a whole. -/
theorem share_markup (raw interpreted : String) :
    (markup raw interpreted).share a b start =
      if start < b ∧ a < start + raw.utf8ByteSize then interpreted.toList else [] := rfl

/-- A span that ends before the range has no share in it. -/
theorem share_of_before (h : start + span.raw.utf8ByteSize ≤ a) : span.share a b start = [] :=
  if_neg (by omega)

/-- A span that begins behind the range has no share in it. -/
theorem share_of_behind (h : b ≤ start) : span.share a b start = [] := if_neg (by omega)

/-- A span that lies within the range contributes all it can. -/
theorem share_of_between (hraw : span.raw ≠ "") (ha : a ≤ start)
    (hb : start + span.raw.utf8ByteSize ≤ b) : span.share a b start = span.plain.toList := by
  have hsize : span.raw.utf8ByteSize ≠ 0 := by simpa using hraw
  cases span with
  | text raw =>
    rw [share_text]
    exact Text.within_of_between ha (by rwa [Text.byteLength_toList])
  | markup raw interpreted =>
    rw [raw_markup] at hb hsize
    rw [share_markup, if_pos (by omega), plain_markup]

/-- A span that ends before the range is skipped as a whole. -/
theorem skip_of_before (h : start + span.raw.utf8ByteSize ≤ a) :
    span.skip a start = span.plain.toList := by
  cases span with
  | text raw => exact Text.within_of_between (Nat.zero_le _) (by rwa [Text.byteLength_toList])
  | markup raw interpreted => exact if_pos h

/-- Nothing is skipped of a span that begins with the range or behind it. -/
theorem skip_of_behind (hraw : span.raw ≠ "") (h : a ≤ start) : span.skip a start = [] := by
  have hsize : span.raw.utf8ByteSize ≠ 0 := by simpa using hraw
  cases span with
  | text raw => exact Text.within_of_behind _ h
  | markup raw interpreted =>
    rw [raw_markup] at hsize
    exact if_neg (by omega)

/-- Of what a span contributes before `b`, one part comes before `a` and the rest from there on. -/
theorem skip_append_share (hraw : span.raw ≠ "") (hab : a ≤ b) :
    span.skip a start ++ span.share a b start = span.share 0 b start := by
  have hsize : span.raw.utf8ByteSize ≠ 0 := by simpa using hraw
  cases span with
  | text raw =>
    rw [share_text, share_text]
    exact Text.within_append_within _ hab
  | markup raw interpreted =>
    rw [raw_markup] at hsize
    -- an interpretation is on one side of `a`, according to where its markup ends
    by_cases hend : start + raw.utf8ByteSize ≤ a
    · rw [skip, if_pos hend, share_of_before hend, List.append_nil, share_markup,
        if_pos (by omega)]
    · rw [skip, if_neg hend, List.nil_append, share_markup, share_markup]
      simp only [show a < start + raw.utf8ByteSize by omega,
        show 0 < start + raw.utf8ByteSize by omega]

/-- The shares of two runs of spans follow each other, the second counted from where the first
    ends. -/
theorem shares_append (first second : List Span) :
    shares a b start (first ++ second) =
      shares a b start first ++ shares a b (start + (Breakpoint.after first).source) second := by
  induction first generalizing start with
  | nil => rfl
  | cons span first ih =>
    rw [List.cons_append, shares, shares, ih, Breakpoint.source_after_cons, List.append_assoc,
      Nat.add_assoc]

/-- The skipped parts of two runs of spans follow each other in the same way. -/
theorem skipped_append (first second : List Span) :
    skipped a start (first ++ second) =
      skipped a start first ++ skipped a (start + (Breakpoint.after first).source) second := by
  induction first generalizing start with
  | nil => rfl
  | cons span first ih =>
    rw [List.cons_append, skipped, skipped, ih, Breakpoint.source_after_cons, List.append_assoc,
      Nat.add_assoc]

/-- Spans behind the range have no shares in it. -/
theorem shares_of_behind (spans : List Span) (h : b ≤ start) : shares a b start spans = [] := by
  induction spans generalizing start with
  | nil => rfl
  | cons span spans ih => rw [shares, share_of_behind h, ih (by omega), List.nil_append]

/-- Spans that lie within the range are shared as a whole. -/
theorem shares_of_between {spans : List Span} (hraw : ∀ span ∈ spans, span.raw ≠ "")
    (ha : a ≤ start) (hb : start + (Breakpoint.after spans).source ≤ b) :
    shares a b start spans = reading spans := by
  induction spans generalizing start with
  | nil => rfl
  | cons span spans ih =>
    obtain ⟨hspan, hspans⟩ := List.forall_mem_cons.mp hraw
    rw [Breakpoint.source_after_cons] at hb
    rw [shares, reading_cons, share_of_between hspan ha (by omega),
      ih hspans (by omega) (by omega)]

/-- Spans before the range are skipped as a whole. -/
theorem skipped_of_before {spans : List Span} (h : start + (Breakpoint.after spans).source ≤ a) :
    skipped a start spans = reading spans := by
  induction spans generalizing start with
  | nil => rfl
  | cons span spans ih =>
    rw [Breakpoint.source_after_cons] at h
    rw [skipped, reading_cons, skip_of_before (by omega), ih (by omega)]

/-- Nothing is skipped of spans behind the start of the range. -/
theorem skipped_of_behind {spans : List Span} (hraw : ∀ span ∈ spans, span.raw ≠ "")
    (h : a ≤ start) : skipped a start spans = [] := by
  induction spans generalizing start with
  | nil => rfl
  | cons span spans ih =>
    obtain ⟨hspan, hspans⟩ := List.forall_mem_cons.mp hraw
    rw [skipped, skip_of_behind hspan h, ih hspans (by omega), List.nil_append]

/-- What is skipped before a range and what the range is given make up what is given to the range
    that starts with the source. -/
theorem skipped_append_shares {spans : List Span} (hraw : ∀ span ∈ spans, span.raw ≠ "")
    (hab : a ≤ b) : skipped a start spans ++ shares a b start spans = shares 0 b start spans := by
  induction spans generalizing start with
  | nil => rfl
  | cons span spans ih =>
    obtain ⟨hspan, hspans⟩ := List.forall_mem_cons.mp hraw
    have hpair : span.skip a start ++ span.share a b start = span.share 0 b start :=
      skip_append_share hspan hab
    have hrest : skipped a (start + span.raw.utf8ByteSize) spans ++
        shares a b (start + span.raw.utf8ByteSize) spans =
          shares 0 b (start + span.raw.utf8ByteSize) spans := ih hspans
    -- a span with a share is followed by nothing that is skipped
    have hswap : skipped a (start + span.raw.utf8ByteSize) spans ++ span.share a b start =
        span.share a b start ++ skipped a (start + span.raw.utf8ByteSize) spans := by
      by_cases hend : start + span.raw.utf8ByteSize ≤ a
      · rw [share_of_before hend, List.append_nil, List.nil_append]
      · rw [skipped_of_behind hspans (by omega), List.append_nil, List.nil_append]
    calc skipped a start (span :: spans) ++ shares a b start (span :: spans)
        = span.skip a start ++ (skipped a (start + span.raw.utf8ByteSize) spans ++
            span.share a b start) ++ shares a b (start + span.raw.utf8ByteSize) spans := by
          simp only [skipped, shares, List.append_assoc]
      _ = (span.skip a start ++ span.share a b start) ++
            (skipped a (start + span.raw.utf8ByteSize) spans ++
              shares a b (start + span.raw.utf8ByteSize) spans) := by
          rw [hswap]
          simp only [List.append_assoc]
      _ = shares 0 b start (span :: spans) := by rw [hpair, hrest, shares]

section Split

variable {before later : List Span} (hraw : ∀ other ∈ before ++ span :: later, other.raw ≠ "")
include hraw

/-- Behind the span that a range starts in nothing is skipped. -/
theorem skipped_of_split (hlow : (Breakpoint.after before).source ≤ a)
    (hhigh : a ≤ (Breakpoint.after (before ++ [span])).source) :
    skipped a 0 (before ++ span :: later) =
      reading before ++ span.skip a (Breakpoint.after before).source := by
  obtain ⟨-, hrest⟩ := List.forall_mem_append.mp hraw
  obtain ⟨-, hlater⟩ := List.forall_mem_cons.mp hrest
  simp only [Breakpoint.source_after_append, Breakpoint.source_after_cons, Breakpoint.after_nil,
    Breakpoint.source_origin] at hhigh
  rw [skipped_append, skipped_of_before (by omega), skipped, skipped_of_behind hlater (by omega),
    List.append_nil, Nat.zero_add]

/-- Behind the span that a range stops in nothing is shared. -/
theorem shares_of_split (hlow : (Breakpoint.after before).source ≤ b)
    (hhigh : b ≤ (Breakpoint.after (before ++ [span])).source) :
    shares 0 b 0 (before ++ span :: later) =
      reading before ++ span.share 0 b (Breakpoint.after before).source := by
  obtain ⟨hbefore, -⟩ := List.forall_mem_append.mp hraw
  simp only [Breakpoint.source_after_append, Breakpoint.source_after_cons, Breakpoint.after_nil,
    Breakpoint.source_origin] at hhigh
  rw [shares_append, shares_of_between hbefore (Nat.le_refl _) (by omega), shares,
    shares_of_behind later (by omega), List.append_nil, Nat.zero_add]

end Split

/-- Breakpoints count the bytes of what the spans read as. -/
theorem byteLength_reading (spans : List Span) :
    Text.byteLength (reading spans) = (Breakpoint.after spans).plain := by
  induction spans with
  | nil => rfl
  | cons span spans ih =>
    rw [reading_cons, Text.byteLength_append, ih, Text.byteLength_toList,
      Breakpoint.plain_after_cons]

/-- Breakpoints count the bytes of source that the spans cover. -/
theorem byteLength_source (spans : List Span) :
    Text.byteLength (source spans) = (Breakpoint.after spans).source := by
  induction spans with
  | nil => rfl
  | cons span spans ih =>
    rw [source_cons, Text.byteLength_append, ih, Text.byteLength_toList,
      Breakpoint.source_after_cons]

end Span

namespace AnnotatedText

/-! ## The two ends of the plain range -/

variable {t : AnnotatedText}

/-- The source of an annotated text, as characters. -/
theorem toList_sourceText (t : AnnotatedText) : t.sourceText.toList = Span.source t.spans := by
  rw [sourceText, String.toList_join, List.flatMap_map]
  rfl

/-- A place between two characters of the source that falls into a span cuts the span between two
    of its characters. -/
theorem Placed.exists_append {span : Span} {low high : Breakpoint} {offset : Nat}
    (h : t.Placed span low high) (hvalid : (String.Pos.Raw.mk offset).IsValid t.sourceText)
    (hlow : low.source ≤ offset) (hhigh : offset ≤ high.source) :
    ∃ front back, span.raw.toList = front ++ back ∧
      low.source + Text.byteLength front = offset := by
  obtain ⟨rest, hrest⟩ := Text.exists_dropBytes?_of_isValid hvalid
  rw [toList_sourceText] at hrest
  obtain ⟨before, later, hspans, rfl, rfl⟩ := h
  -- the span begins and ends at characters of the source, and so does the offset: it cuts the span
  -- between two characters
  have hstart := Text.dropBytes?_append (Span.source before) (span.raw.toList ++ Span.source later)
  have hstop :=
    Text.dropBytes?_append (Span.source before ++ span.raw.toList) (Span.source later)
  rw [hspans, Span.source_append, Span.source_cons] at hrest
  rw [Span.byteLength_source] at hstart
  rw [Text.byteLength_append, Span.byteLength_source, List.append_assoc,
    Text.byteLength_toList] at hstop
  simp only [Breakpoint.source_after_append, Breakpoint.source_after_cons, Breakpoint.after_nil,
    Breakpoint.source_origin, Nat.add_zero] at hhigh
  obtain ⟨front, hfront, hlength⟩ := Text.exists_append_of_dropBytes? hstart hrest hlow
  obtain ⟨back, rfl, -⟩ := Text.exists_append_of_dropBytes? hrest hstop hhigh
  refine ⟨front, back, ?_, hlength⟩
  rw [← List.append_assoc] at hfront
  exact List.append_cancel_right hfront

/-- A place of the source is not past its end. -/
theorem le_source_of_isValid {offset : Nat}
    (hvalid : (String.Pos.Raw.mk offset).IsValid t.sourceText) :
    offset ≤ (Breakpoint.after t.spans).source := by
  obtain ⟨rest, hrest⟩ := Text.exists_dropBytes?_of_isValid hvalid
  obtain ⟨front, hfront, rfl⟩ := Text.exists_append_of_dropBytes?_eq_some hrest
  rw [← Span.byteLength_source, ← toList_sourceText, ← hfront, Text.byteLength_append]
  exact Nat.le_add_right _ _

/-- A breakpoint stands between two characters of the source. -/
theorem isValid_after {first : List Span} (hfirst : first <+: t.spans) :
    (String.Pos.Raw.mk (Breakpoint.after first).source).IsValid t.sourceText := by
  obtain ⟨second, hsecond⟩ := hfirst
  have hdrop := Text.dropBytes?_append (Span.source first) (Span.source second)
  rw [← Span.source_append, hsecond, ← toList_sourceText, Span.byteLength_source] at hdrop
  exact Text.isValid_of_dropBytes? hdrop

namespace WellFormed

variable (h : t.WellFormed)
include h

/-- A range starts behind what is skipped. -/
theorem lookup_start_eq {a : Nat} (ha : (String.Pos.Raw.mk a).IsValid t.sourceText) :
    t.lookup .source .start a = Text.byteLength (Span.skipped a 0 t.spans) := by
  rcases Nat.lt_or_ge a (Breakpoint.after t.spans).source with hlt | hge
  · obtain ⟨span, low, high, hspan, hlow, hhigh⟩ := exists_placed t .source hlt
    obtain ⟨front, back, hraw, hfront⟩ := hspan.exists_append ha hlow (Nat.le_of_lt hhigh)
    have hlookup := h.lookup_start_of_placed .source hspan hlow hhigh
    obtain ⟨before, later, hspans, rfl, rfl⟩ := hspan
    have hskipped := Span.skipped_of_split (hspans ▸ h.raw_ne_empty) hlow (Nat.le_of_lt hhigh)
    rw [← hspans] at hskipped
    rw [hlookup, hskipped, Text.byteLength_append, Span.byteLength_reading]
    cases span with
    | text raw =>
      have hskip : Span.skip a (Breakpoint.after before).source (.text raw) = front := by
        rw [← hfront]
        exact Text.within_zero_of_append hraw
      rw [hskip, if_pos (Span.isText_text raw), Axis.other_source, Axis.key_source]
      omega
    | markup raw interpreted =>
      -- the range starts before the markup ends
      have hskip : Span.skip a (Breakpoint.after before).source (.markup raw interpreted) = [] := by
        simp only [Axis.key_source, Breakpoint.source_after_append, Breakpoint.source_after_cons,
          Breakpoint.after_nil, Breakpoint.source_origin, Span.raw_markup] at hhigh
        exact if_neg (by omega)
      rw [hskip, if_neg (by simp), Axis.other_source]
      rfl
  · -- a range at the end of the source starts behind everything
    have hend : a = (Breakpoint.after t.spans).source :=
      Nat.le_antisymm (le_source_of_isValid ha) hge
    have hwalk := walk_append .source .start a [] t.spans [] (.inl rfl) hge
    rw [List.append_nil] at hwalk
    rw [h.lookup_eq_walk, hwalk, walk_nil, Span.skipped_of_before (by omega),
      Span.byteLength_reading]
    rfl

/-- A range stops behind what is given to the same range that starts with the source, and that is a
    beginning of the plain text. -/
theorem lookup_stop_eq {b : Nat} (hb : (String.Pos.Raw.mk b).IsValid t.sourceText) :
    t.lookup .source .stop b = Text.byteLength (Span.shares 0 b 0 t.spans) ∧
      Span.shares 0 b 0 t.spans <+: Span.reading t.spans := by
  rcases Nat.eq_zero_or_pos b with rfl | hpos
  · rw [h.lookup_eq_walk, walk_of_le _ _ _ _ (by simp) (Nat.zero_le _),
      Span.shares_of_behind _ (Nat.le_refl _)]
    exact ⟨rfl, List.nil_prefix⟩
  · have hle := le_source_of_isValid hb
    -- the span that holds the last byte of the range
    have hlt : b - 1 < (Breakpoint.after t.spans).source := by omega
    obtain ⟨span, low, high, hspan, hlow, hhigh⟩ := exists_placed t .source hlt
    rw [Axis.key_source] at hlow hhigh
    have hlow : low.source < b := by omega
    have hhigh : b ≤ high.source := by omega
    obtain ⟨front, back, hraw, hfront⟩ := hspan.exists_append hb (Nat.le_of_lt hlow) hhigh
    have hlookup := h.lookup_stop_of_placed .source hspan hlow hhigh
    obtain ⟨before, later, hspans, rfl, rfl⟩ := hspan
    have hshares := Span.shares_of_split (hspans ▸ h.raw_ne_empty) (Nat.le_of_lt hlow) hhigh
    rw [hlookup, hspans, hshares, Text.byteLength_append, Span.byteLength_reading,
      Span.reading_append, Span.reading_cons, List.prefix_append_right_inj]
    cases span with
    | text raw =>
      have hshare : Span.share 0 b (Breakpoint.after before).source (.text raw) = front := by
        rw [Span.share_text, ← hfront]
        exact Text.within_zero_of_append hraw
      rw [Span.raw_text] at hraw
      rw [hshare, if_pos (Span.isText_text raw), Axis.other_source, Axis.key_source,
        Span.plain_text, hraw, List.append_assoc]
      exact ⟨by omega, List.prefix_append _ _⟩
    | markup raw interpreted =>
      -- the range reaches into the markup and is given all of its interpretation
      have hshare : Span.share 0 b (Breakpoint.after before).source (.markup raw interpreted) =
          interpreted.toList := by
        simp only [Breakpoint.source_after_append, Breakpoint.source_after_cons,
          Breakpoint.after_nil, Breakpoint.source_origin, Nat.add_zero] at hhigh
        exact if_pos ⟨hlow, by omega⟩
      rw [hshare, if_neg (by simp), Axis.other_source, Text.byteLength_toList, Span.plain_markup]
      refine ⟨?_, List.prefix_append _ _⟩
      simp

/-- The plain range of a source range: from behind what is skipped to behind what is shared. -/
theorem plainRange_eq {a b : Nat} (hab : a ≤ b)
    (ha : (String.Pos.Raw.mk a).IsValid t.sourceText)
    (hb : (String.Pos.Raw.mk b).IsValid t.sourceText) :
    t.plainRange a b = (Text.byteLength (Span.skipped a 0 t.spans),
      Text.byteLength (Span.skipped a 0 t.spans) +
        Text.byteLength (Span.shares a b 0 t.spans)) := by
  obtain ⟨hstop, -⟩ := h.lookup_stop_eq hb
  rw [plainRange, lookupRange, h.lookup_start_eq ha, hstop,
    ← Span.skipped_append_shares h.raw_ne_empty hab, Text.byteLength_append,
    Nat.max_eq_left (Nat.le_add_right _ _)]

/-- What is skipped, what is shared and what is left over make up the plain text. -/
theorem exists_toList_plain {a b : Nat} (hab : a ≤ b)
    (hb : (String.Pos.Raw.mk b).IsValid t.sourceText) :
    ∃ back, t.plain.toList =
      Span.skipped a 0 t.spans ++ (Span.shares a b 0 t.spans ++ back) := by
  obtain ⟨-, back, hback⟩ := h.lookup_stop_eq hb
  rw [← Span.skipped_append_shares h.raw_ne_empty hab, List.append_assoc] at hback
  refine ⟨back, ?_⟩
  rw [hback, h.plain_eq, Span.toList_join_plain]

/-- The plain range of a source range cuts out of the plain text what is shared. -/
theorem slice?_plainRange {a b : Nat} (hab : a ≤ b)
    (ha : (String.Pos.Raw.mk a).IsValid t.sourceText)
    (hb : (String.Pos.Raw.mk b).IsValid t.sourceText) :
    Text.slice? t.plain (t.plainRange a b).1 (t.plainRange a b).2 =
      some (String.ofList (Span.shares a b 0 t.spans)) := by
  obtain ⟨back, hback⟩ := h.exists_toList_plain hab hb
  rw [h.plainRange_eq hab ha hb, Text.slice?_eq_some_iff, hback, String.toList_ofList]
  exact ⟨back, Text.dropBytes?_append _ _, rfl⟩

/-- A range between two characters reads as its shares. -/
theorem plainSubstring_eq {a b : Nat} (hab : a ≤ b)
    (ha : (String.Pos.Raw.mk a).IsValid t.sourceText)
    (hb : (String.Pos.Raw.mk b).IsValid t.sourceText) :
    t.plainSubstring a b = String.ofList (Span.shares a b 0 t.spans) := by
  show (Text.slice? t.plain (t.plainRange a b).1 (t.plainRange a b).2).getD "" = _
  rw [h.slice?_plainRange hab ha hb, Option.getD_some]

/-- Both ends of the plain range are places between two characters. -/
theorem isValid_plainRange {a b : Nat} (hab : a ≤ b)
    (ha : (String.Pos.Raw.mk a).IsValid t.sourceText)
    (hb : (String.Pos.Raw.mk b).IsValid t.sourceText) :
    (String.Pos.Raw.mk (t.plainRange a b).1).IsValid t.plain ∧
      (String.Pos.Raw.mk (t.plainRange a b).2).IsValid t.plain := by
  obtain ⟨back, hback⟩ := h.exists_toList_plain hab hb
  rw [h.plainRange_eq hab ha hb]
  have hfirst := Text.dropBytes?_append (Span.skipped a 0 t.spans)
    (Span.shares a b 0 t.spans ++ back)
  have hlast := Text.dropBytes?_of_dropBytes? hfirst rfl
  rw [← hback] at hfirst hlast
  exact ⟨Text.isValid_of_dropBytes? hfirst, Text.isValid_of_dropBytes? hlast⟩

/-- All of the source reads as all of the plain text. -/
theorem plainSubstring_all : t.plainSubstring 0 t.sourceLength = t.plain := by
  have hlength : t.sourceLength = t.sourceText.utf8ByteSize := by
    rw [h.sourceLength_eq, ← Text.byteLength_toList, toList_sourceText, Span.byteLength_source]
  have hstart : (String.Pos.Raw.mk 0).IsValid t.sourceText :=
    Text.isValid_of_dropBytes? (Text.dropBytes?_zero _)
  have hend : (String.Pos.Raw.mk t.sourceLength).IsValid t.sourceText := by
    rw [hlength]
    exact String.Pos.Raw.isValid_rawEndPos
  rw [h.plainSubstring_eq (Nat.zero_le _) hstart hend, h.plain_eq,
    -- every share is a whole reading, since no span reaches beyond the two ends
    Span.shares_of_between h.raw_ne_empty (Nat.le_refl _) (by rw [h.sourceLength_eq]; omega),
    ← Span.toList_join_plain, String.ofList_toList]

/-- At a breakpoint what is skipped is all that was shared so far. -/
theorem skipped_after {first : List Span} (hfirst : first <+: t.spans) :
    Span.skipped (Breakpoint.after first).source 0 t.spans =
      Span.shares 0 (Breakpoint.after first).source 0 t.spans := by
  obtain ⟨second, hsecond⟩ := hfirst
  have hne := h.raw_ne_empty
  rw [← hsecond] at hne ⊢
  obtain ⟨hleft, hright⟩ := List.forall_mem_append.mp hne
  rw [Span.skipped_append, Span.skipped_of_before (by omega), Span.shares_append,
    Span.shares_of_between hleft (Nat.le_refl _) (by omega),
    Span.skipped_of_behind hright (by omega), Span.shares_of_behind _ (by omega)]

/-- A breakpoint within a range cuts what the range is given in two. -/
theorem shares_append_shares {first : List Span} (hfirst : first <+: t.spans) {a b : Nat}
    (ha : a ≤ (Breakpoint.after first).source) (hb : (Breakpoint.after first).source ≤ b) :
    Span.shares a (Breakpoint.after first).source 0 t.spans ++
      Span.shares (Breakpoint.after first).source b 0 t.spans = Span.shares a b 0 t.spans := by
  -- behind what is skipped before `a`, both sides make up the shares from the start of the source
  have hboth : Span.skipped a 0 t.spans ++
      (Span.shares a (Breakpoint.after first).source 0 t.spans ++
        Span.shares (Breakpoint.after first).source b 0 t.spans) =
      Span.skipped a 0 t.spans ++ Span.shares a b 0 t.spans := by
    rw [← List.append_assoc, Span.skipped_append_shares h.raw_ne_empty ha,
      ← h.skipped_after hfirst, Span.skipped_append_shares h.raw_ne_empty hb,
      Span.skipped_append_shares h.raw_ne_empty (Nat.le_trans ha hb)]
  exact List.append_cancel_left hboth

end WellFormed

/-- Whatever was recorded: a source range between two characters reads as the shares of the spans
    that it overlaps, in order.  Both ends of its plain range are between two characters, so that
    the plain text is never refused.  All of the source reads as all of the plain text, and a
    breakpoint within a range cuts what it reads as in two. -/
theorem plainSubstring_shares {t : AnnotatedText} {origin : Nat} {calls : List Span}
    (ht : t = ofCalls origin calls) :
    (∀ a b, a ≤ b → (String.Pos.Raw.mk a).IsValid t.sourceText →
      (String.Pos.Raw.mk b).IsValid t.sourceText →
      t.plainSubstring a b = String.ofList (Span.shares a b 0 t.spans) ∧
      Text.slice? t.plain (t.plainRange a b).1 (t.plainRange a b).2 =
        some (t.plainSubstring a b) ∧
      (String.Pos.Raw.mk (t.plainRange a b).1).IsValid t.plain ∧
      (String.Pos.Raw.mk (t.plainRange a b).2).IsValid t.plain ∧
      ∀ first, first <+: t.spans → a ≤ (Breakpoint.after first).source →
        (Breakpoint.after first).source ≤ b →
        t.plainSubstring a b = t.plainSubstring a (Breakpoint.after first).source ++
          t.plainSubstring (Breakpoint.after first).source b) ∧
    t.plainSubstring 0 t.sourceLength = t.plain := by
  have h : t.WellFormed := ht ▸ wellFormed_ofCalls origin calls
  refine ⟨?_, h.plainSubstring_all⟩
  intro a b hab ha hb
  have hsubstring := h.plainSubstring_eq hab ha hb
  obtain ⟨hfirst, hlast⟩ := h.isValid_plainRange hab ha hb
  refine ⟨hsubstring, ?_, hfirst, hlast, ?_⟩
  · rw [hsubstring]
    exact h.slice?_plainRange hab ha hb
  -- the breakpoint after `first` stands between two characters, so that either part is a range
  · intro first hprefix hle hge
    have hcut := isValid_after hprefix
    rw [hsubstring, h.plainSubstring_eq hle ha hcut, h.plainSubstring_eq hge hcut hb,
      ← String.ofList_append, h.shares_append_shares hprefix hle hge]

/-- From within the first word to the end of the citation, with a character of two bytes before the
    range: the rest of the word, then all of the citation's word. -/
theorem plainSubstring_shares_citation :
    ∃ t : AnnotatedText,
      t = ofCalls 0
        [.text "Né ", .markup "\\cite\x7bx\x7d" "Dummy0", .markup "%c\n" "", .text "."] ∧
      t.plainSubstring 3 9 = " Dummy0" ∧
      t.plainSubstring 3 9 = t.plainSubstring 3 4 ++ t.plainSubstring 4 9 := by
  refine ⟨_, rfl, by decide +kernel, ?_⟩
  refine ((plainSubstring_shares rfl).1 3 9 (by decide) ?_ ?_).2.2.2.2 [.text "Né "] ⟨_, rfl⟩
    (by decide +kernel) (by decide +kernel)
  · exact Text.isValid_of_dropBytes? rfl
  · exact Text.isValid_of_dropBytes? rfl

end AnnotatedText

end ProseLens
