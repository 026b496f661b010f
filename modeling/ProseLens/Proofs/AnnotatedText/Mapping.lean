import ProseLens.AnnotatedText.Mapping
import ProseLens.Proofs.AnnotatedText.WellFormed

/-!
# Where offsets go

The mapping of a well-formed text, read off its spans.  A span is `Placed` between the breakpoint
before it and the one after it, and every offset of either text falls into a placed span.  What an
offset corresponds to is said span by span (`lookup_start_of_placed`, `lookup_stop_of_placed`,
`lookup_lowest_of_text`, `lookup_lowest_of_markup`, `lookup_lowest_of_end`), so that later proofs
need not follow the walk over the breakpoints.

The walk itself is `locate` with the breakpoints that the spans determine.  It is called `walk`
here, and `before` is what it has left behind.

## Key results

- `WellFormed.lookup_mono`: a greater offset corresponds to a greater or equal one
- `WellFormed.lookup_le`: no offset corresponds to one past the end
- `exists_placed`: every offset before the end falls into a span
- `Placed.unique`: and only into one
-/

namespace ProseLens

namespace Axis

variable (axis : Axis)

@[simp] theorem key_plain (b : Breakpoint) : plain.key b = b.plain := rfl

@[simp] theorem key_source (b : Breakpoint) : source.key b = b.source := rfl

@[simp] theorem other_plain (b : Breakpoint) : plain.other b = b.source := rfl

@[simp] theorem other_source (b : Breakpoint) : source.other b = b.plain := rfl

@[simp] theorem key_origin : axis.key .origin = 0 := by cases axis <;> rfl

@[simp] theorem other_origin : axis.other .origin = 0 := by cases axis <;> rfl

/-- The offset along the axis behind two runs of spans is the sum of those behind each of them. -/
@[simp] theorem key_after_append (first second : List Span) :
    axis.key (.after (first ++ second)) = axis.key (.after first) + axis.key (.after second) := by
  cases axis <;> simp [key]

/-- The offset in the other text adds up in the same way. -/
@[simp] theorem other_after_append (first second : List Span) :
    axis.other (.after (first ++ second)) =
      axis.other (.after first) + axis.other (.after second) := by
  cases axis <;> simp [other]

/-- Text has the same length in both texts. -/
theorem key_after_text {span : Span} (h : span.isText = true) :
    axis.key (.after [span]) = axis.other (.after [span]) := by
  cases span with
  | text raw => cases axis <;> rfl
  | markup raw interpreted => simp at h

end Axis

namespace AnnotatedText

/-! ## The walk over the breakpoints -/

/-- The breakpoints that close `spans`, which follow `before`. -/
def closings (before : List Span) : List Span → List Breakpoint
  | [] => []
  | span :: spans => .after (before ++ [span]) :: closings (before ++ [span]) spans

/-- The breakpoints of spans are the one they begin at and those that close them. -/
theorem map_after_inits (before spans : List Span) :
    spans.inits.map (fun first => Breakpoint.after (before ++ first)) =
      .after before :: closings before spans := by
  induction spans generalizing before with
  | nil => simp [closings]
  | cons span spans ih =>
    -- the rest begins behind the first span
    have htail := ih (before ++ [span])
    simp only [List.append_assoc, List.singleton_append] at htail
    simp [closings, Function.comp_def, htail]

/-- The walk from behind `before` through the spans after it. -/
def walk (axis : Axis) (edge : Edge) (offset : Nat) (before spans : List Span) : Nat :=
  locate axis edge offset (.after before) spans (closings before spans)

/-- The breakpoints are the origin and those that close the spans. -/
theorem WellFormed.breakpoints_eq_closings {t : AnnotatedText} (h : t.WellFormed) :
    t.breakpoints = .after [] :: closings [] t.spans := by
  rw [h.breakpoints_eq, ← map_after_inits]
  rfl

/-- A look-up in a well-formed text walks from its start. -/
theorem WellFormed.lookup_eq_walk {t : AnnotatedText} (h : t.WellFormed) (axis : Axis)
    (edge : Edge) (offset : Nat) :
    t.lookup axis edge offset = walk axis edge offset [] t.spans := by
  simp only [lookup, h.breakpoints_eq_closings, walk]

section Walk

variable (axis : Axis) (edge : Edge) (offset : Nat) (before : List Span)

/-- A walk that has passed all spans ends where they end. -/
@[simp] theorem walk_nil : walk axis edge offset before [] = axis.other (.after before) := rfl

/-- A walk stops at the span that the offset falls into, and passes it otherwise. -/
theorem walk_cons (span : Span) (spans : List Span) :
    walk axis edge offset before (span :: spans) =
      if edge ≠ .start ∧ offset ≤ axis.key (.after before) then axis.other (.after before)
      else if axis.key (.after (before ++ [span])) ≤ offset then
        walk axis edge offset (before ++ [span]) spans
      else if span.isText then
        axis.other (.after before) + (offset - axis.key (.after before))
      else if edge = .stop then axis.other (.after (before ++ [span]))
      else axis.other (.after before) := rfl

/-- The walk does not begin if the offset is not ahead, unless a range starts here. -/
theorem walk_of_le (hedge : edge ≠ .start) (h : offset ≤ axis.key (.after before))
    (spans : List Span) : walk axis edge offset before spans = axis.other (.after before) := by
  cases spans with
  | nil => rfl
  | cons span spans => rw [walk_cons, if_pos ⟨hedge, h⟩]

/-- The walk passes all spans that end at or before the offset. -/
theorem walk_append (first spans : List Span)
    (hedge : edge = .start ∨ axis.key (.after (before ++ first)) < offset)
    (h : axis.key (.after (before ++ first)) ≤ offset) :
    walk axis edge offset before (first ++ spans) =
      walk axis edge offset (before ++ first) spans := by
  induction first generalizing before with
  | nil => simp
  | cons span first ih =>
    have hsplit : before ++ span :: first = (before ++ [span]) ++ first := by simp
    rw [hsplit] at h hedge ⊢
    have hpass : axis.key (.after (before ++ [span])) ≤ offset := by
      rw [Axis.key_after_append axis (before ++ [span])] at h
      omega
    -- the first test of the walk is for an offset that is reached already
    have hahead : ¬ (edge ≠ .start ∧ offset ≤ axis.key (.after before)) := by
      rintro ⟨hne, hle⟩
      rcases hedge with rfl | hlt
      · exact hne rfl
      · simp only [Axis.key_after_append] at hlt
        omega
    rw [List.cons_append, walk_cons, if_neg hahead, if_pos hpass, ih _ hedge h]

/-- A walk never ends before where it stands. -/
theorem other_le_walk (spans : List Span) :
    axis.other (.after before) ≤ walk axis edge offset before spans := by
  induction spans generalizing before with
  | nil => exact Nat.le_refl _
  | cons span spans ih =>
    rw [walk_cons]
    -- passing a span only goes forward
    have hstep : axis.other (.after before) ≤ axis.other (.after (before ++ [span])) := by
      rw [Axis.other_after_append]
      omega
    split
    · exact Nat.le_refl _
    · split
      · exact Nat.le_trans hstep (ih _)
      · split
        · omega
        · split
          · exact hstep
          · exact Nat.le_refl _

/-- A walk never ends behind the last of its spans. -/
theorem walk_le_other (spans : List Span) :
    walk axis edge offset before spans ≤ axis.other (.after (before ++ spans)) := by
  induction spans generalizing before with
  | nil => simp
  | cons span spans ih =>
    rw [List.append_cons, walk_cons]
    have hlow : axis.other (.after before) ≤ axis.other (.after (before ++ [span] ++ spans)) := by
      simp only [Axis.other_after_append]
      omega
    split
    · exact hlow
    · split
      · exact ih _
      · next hinside =>
        split
        · next htext =>
          -- inside text both coordinates grow by the same amount
          have hlength := axis.key_after_text htext
          simp only [Axis.key_after_append, Axis.other_after_append] at hinside ⊢
          omega
        · split
          · rw [Axis.other_after_append axis (before ++ [span])]
            omega
          · exact hlow

/-- A greater offset is found further on. -/
theorem walk_mono {offset' : Nat} (h : offset ≤ offset') (spans : List Span) :
    walk axis edge offset before spans ≤ walk axis edge offset' before spans := by
  induction spans generalizing before with
  | nil => exact Nat.le_refl _
  | cons span spans ih =>
    -- whatever lies behind the span is found at or behind its end
    have hbehind := other_le_walk axis edge offset' (before ++ [span]) spans
    have hstart := other_le_walk axis edge offset' before (span :: spans)
    rw [walk_cons axis edge offset']
    rw [walk_cons axis edge offset'] at hstart
    rw [walk_cons]
    by_cases hfirst : edge ≠ .start ∧ offset ≤ axis.key (.after before)
    · rw [if_pos hfirst]
      exact hstart
    · have hfirst' : ¬ (edge ≠ .start ∧ offset' ≤ axis.key (.after before)) := by
        rintro ⟨hne, hle⟩
        exact hfirst ⟨hne, by omega⟩
      rw [if_neg hfirst'] at hstart
      rw [if_neg hfirst, if_neg hfirst']
      -- both pass the span, only the greater one does, or neither
      by_cases hpass : axis.key (.after (before ++ [span])) ≤ offset
      · rw [if_pos hpass, if_pos (by omega)]
        exact ih _
      · rw [if_neg hpass]
        by_cases hpass' : axis.key (.after (before ++ [span])) ≤ offset'
        · rw [if_pos hpass'] at hstart ⊢
          split
          · next htext =>
            have hlength := axis.key_after_text htext
            simp only [Axis.key_after_append, Axis.other_after_append] at hpass hbehind
            omega
          · split
            · exact hbehind
            · exact hstart
        · rw [if_neg hpass']
          split
          · omega
          · exact Nat.le_refl _

end Walk

/-! ## Spans in their places -/

/-- `span` stands in the text from breakpoint `low` to breakpoint `high`. -/
def Placed (t : AnnotatedText) (span : Span) (low high : Breakpoint) : Prop :=
  ∃ before later, t.spans = before ++ span :: later ∧
    low = .after before ∧ high = .after (before ++ [span])

namespace Placed

variable {t : AnnotatedText} {span : Span} {low high : Breakpoint}

/-- A span covers some source. -/
theorem source_lt (h : t.Placed span low high) (ht : t.WellFormed) : low.source < high.source := by
  obtain ⟨before, later, hspans, rfl, rfl⟩ := h
  have hraw : span.raw ≠ "" := ht.raw_ne_empty span (by simp [hspans])
  have hsize : span.raw.utf8ByteSize ≠ 0 := by simpa using hraw
  simp only [Breakpoint.source_after_append, Breakpoint.source_after_cons]
  omega

/-- A span of text is as long in the one text as in the other. -/
theorem text_length (h : t.Placed span low high) (htext : span.isText = true) (axis : Axis) :
    axis.other high + axis.key low = axis.other low + axis.key high := by
  obtain ⟨before, later, -, rfl, rfl⟩ := h
  have hlength := axis.key_after_text htext
  simp only [Axis.key_after_append, Axis.other_after_append]
  omega

/-- A breakpoint stands before a span or behind it in both texts, never inside. -/
theorem before_or_behind (h : t.Placed span low high) {first : List Span}
    (hfirst : first <+: t.spans) :
    (∀ axis : Axis, axis.key (.after first) ≤ axis.key low) ∨
      ∀ axis : Axis, axis.key high ≤ axis.key (.after first) := by
  obtain ⟨before, later, hspans, rfl, rfl⟩ := h
  obtain ⟨second, hsecond⟩ := hfirst
  rw [hspans] at hsecond
  rcases List.append_eq_append_iff.mp hsecond with ⟨mid, rfl, -⟩ | ⟨mid, rfl, hmid⟩
  · left
    intro axis
    rw [Axis.key_after_append]
    omega
  · cases mid with
    | nil => simp
    | cons next mid =>
      -- `first` holds all of `before` and at least one span more, which must be `span`
      obtain rfl : span = next := (List.cons.inj hmid).1
      right
      intro axis
      rw [List.append_cons before span mid, Axis.key_after_append axis (before ++ [span])]
      omega

/-- No two spans share an offset of either text. -/
theorem unique {span' : Span} {low' high' : Breakpoint} (h : t.Placed span low high)
    (h' : t.Placed span' low' high') (axis : Axis) {offset : Nat}
    (hlow : axis.key low ≤ offset) (hhigh : offset < axis.key high)
    (hlow' : axis.key low' ≤ offset) (hhigh' : offset < axis.key high') :
    span = span' ∧ low = low' ∧ high = high' := by
  obtain ⟨before, later, hspans, rfl, rfl⟩ := h
  obtain ⟨before', later', hspans', rfl, rfl⟩ := h'
  rw [hspans] at hspans'
  -- the span that begins first either is the other one or ends before it begins
  rcases List.append_eq_append_iff.mp hspans' with ⟨mid, rfl, hmid⟩ | ⟨mid, rfl, hmid⟩
  · cases mid with
    | nil => simp_all
    | cons next mid =>
      obtain rfl : span = next := (List.cons.inj hmid).1
      simp only [Axis.key_after_append, List.append_cons before span mid] at hhigh hlow'
      omega
  · cases mid with
    | nil => simp_all
    | cons next mid =>
      obtain rfl : span' = next := (List.cons.inj hmid).1
      simp only [Axis.key_after_append, List.append_cons before' span' mid] at hhigh' hlow
      omega

end Placed

/-- Every offset before the end falls into a span. -/
theorem exists_placed (t : AnnotatedText) (axis : Axis) {offset : Nat}
    (hoffset : offset < axis.key (.after t.spans)) :
    ∃ span low high, t.Placed span low high ∧ axis.key low ≤ offset ∧ offset < axis.key high := by
  -- the spans that end at or before the offset are passed one by one
  suffices hwalk : ∀ later before, t.spans = before ++ later → axis.key (.after before) ≤ offset →
      ∃ span low high, t.Placed span low high ∧ axis.key low ≤ offset ∧ offset < axis.key high by
    exact hwalk t.spans [] rfl (by simp)
  intro later
  induction later with
  | nil =>
    intro before hspans hbefore
    rw [hspans, List.append_nil] at hoffset
    omega
  | cons span later ih =>
    intro before hspans hbefore
    by_cases hhigh : offset < axis.key (.after (before ++ [span]))
    · exact ⟨span, _, _, ⟨before, later, hspans, rfl, rfl⟩, hbefore, hhigh⟩
    · exact ih (before ++ [span]) (by rw [hspans, List.append_cons]) (by omega)

namespace WellFormed

variable {t : AnnotatedText} (h : t.WellFormed) (axis : Axis)
include h

/-! ## Offsets span by span -/

/-- Where a range starts that starts within a span. -/
theorem lookup_start_of_placed {span : Span} {low high : Breakpoint} {offset : Nat}
    (hspan : t.Placed span low high) (hlow : axis.key low ≤ offset)
    (hhigh : offset < axis.key high) :
    t.lookup axis .start offset =
      if span.isText then axis.other low + (offset - axis.key low) else axis.other low := by
  obtain ⟨before, later, hspans, rfl, rfl⟩ := hspan
  -- the start of a range is looked for behind all spans that end at it
  rw [h.lookup_eq_walk, hspans, walk_append _ _ _ _ _ _ (.inl rfl) (by simpa using hlow)]
  rw [List.nil_append, walk_cons, if_neg (by simp), if_neg (by omega)]
  simp

/-- What corresponds to an offset within a span or at its end, unless a range starts there. -/
private theorem lookup_of_placed {edge : Edge} (hedge : edge ≠ .start) {span : Span}
    {low high : Breakpoint} {offset : Nat} (hspan : t.Placed span low high)
    (hlow : axis.key low < offset) (hhigh : offset ≤ axis.key high) :
    t.lookup axis edge offset =
      if span.isText then axis.other low + (offset - axis.key low)
      else if offset = axis.key high ∨ edge = .stop then axis.other high
      else axis.other low := by
  have htext := fun hs => hspan.text_length hs axis
  obtain ⟨before, later, hspans, rfl, rfl⟩ := hspan
  rw [h.lookup_eq_walk, hspans]
  rw [walk_append _ _ _ _ _ _ (.inr (by simpa using hlow)) (by simpa using Nat.le_of_lt hlow)]
  rw [List.nil_append, walk_cons, if_neg (by omega)]
  by_cases hend : offset = axis.key (.after (before ++ [span]))
  · -- the walk goes on past the span and stops at once
    rw [if_pos (by omega), walk_of_le _ _ _ _ hedge hhigh, if_pos (Or.inl hend)]
    split
    · next hs =>
      have := htext hs
      omega
    · rfl
  · rw [if_neg (by omega)]
    simp only [hend, false_or]

/-- The stop of a range is found in text to the byte, and in markup behind the markup. -/
theorem lookup_stop_of_placed {span : Span} {low high : Breakpoint} {offset : Nat}
    (hspan : t.Placed span low high) (hlow : axis.key low < offset)
    (hhigh : offset ≤ axis.key high) :
    t.lookup axis .stop offset =
      if span.isText then axis.other low + (offset - axis.key low) else axis.other high := by
  rw [h.lookup_of_placed axis (by simp) hspan hlow hhigh]
  simp

/-- The lowest corresponding offset is found in text to the byte. -/
theorem lookup_lowest_of_text {span : Span} {low high : Breakpoint} {offset : Nat}
    (hspan : t.Placed span low high) (htext : span.isText = true) (hlow : axis.key low < offset)
    (hhigh : offset ≤ axis.key high) :
    t.lookup axis .lowest offset = axis.other low + (offset - axis.key low) := by
  rw [h.lookup_of_placed axis (by simp) hspan hlow hhigh, if_pos htext]

/-- The lowest corresponding offset of a place inside of markup is where the markup begins. -/
theorem lookup_lowest_of_markup {span : Span} {low high : Breakpoint} {offset : Nat}
    (hspan : t.Placed span low high) (hmarkup : ¬ span.isText = true) (hlow : axis.key low < offset)
    (hhigh : offset < axis.key high) : t.lookup axis .lowest offset = axis.other low := by
  rw [h.lookup_of_placed axis (by simp) hspan hlow (Nat.le_of_lt hhigh), if_neg hmarkup, if_neg]
  rintro (hend | hstop)
  · omega
  · cases hstop

/-- The least offset that corresponds to the end of a span which does not begin there. -/
theorem lookup_lowest_of_end {span : Span} {low high : Breakpoint}
    (hspan : t.Placed span low high) (hlt : axis.key low < axis.key high) :
    t.lookup axis .lowest (axis.key high) = axis.other high := by
  rw [h.lookup_of_placed axis (by simp) hspan hlt (Nat.le_refl _)]
  split
  · next htext =>
    -- the way through text ends where the text does
    have hlength := hspan.text_length htext axis
    omega
  · rw [if_pos (Or.inl rfl)]

/-- The start of the one text corresponds to the start of the other. -/
theorem lookup_lowest_zero : t.lookup axis .lowest 0 = 0 := by
  rw [h.lookup_eq_walk, walk_of_le _ _ _ _ (by simp) (Nat.zero_le _)]
  simp

/-- Offsets past the end go to the end. -/
theorem lookup_of_lt {edge : Edge} {offset : Nat} (hoffset : axis.key (.after t.spans) < offset) :
    t.lookup axis edge offset = axis.other (.after t.spans) := by
  rw [h.lookup_eq_walk]
  have hpass := walk_append axis edge offset [] t.spans [] (.inr hoffset) (Nat.le_of_lt hoffset)
  rw [List.append_nil] at hpass
  rw [hpass, List.nil_append, walk_nil]

/-- No offset corresponds to one past the end. -/
theorem lookup_le (edge : Edge) (offset : Nat) :
    t.lookup axis edge offset ≤ axis.other (.after t.spans) := by
  rw [h.lookup_eq_walk]
  exact walk_le_other axis edge offset [] t.spans

/-- A greater offset corresponds to a greater or equal one. -/
theorem lookup_mono (edge : Edge) {offset offset' : Nat} (hle : offset ≤ offset') :
    t.lookup axis edge offset ≤ t.lookup axis edge offset' := by
  rw [h.lookup_eq_walk, h.lookup_eq_walk]
  exact walk_mono axis edge offset [] hle t.spans

end WellFormed

end AnnotatedText

end ProseLens
