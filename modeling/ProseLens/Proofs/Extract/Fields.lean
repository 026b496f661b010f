import ProseLens.Extract.Advance

/-!
# What the emitters leave as it is

Field by field, what is unread and remembered after an emitter.  All other operations are record
updates, whose fields are there to be read.
-/

namespace ProseLens

/-- Markup that is not read as anything adds nothing to the plain text. -/
@[simp] theorem AnnotatedText.Builder.plain_appendMarkup_empty (b : AnnotatedText.Builder)
    (raw : String) : (b.appendMarkup raw "").plain = b.plain := by
  unfold appendMarkup
  split
  · rfl
  · exact String.append_empty

namespace Extract.State

variable (s : State) (n : Nat) (read language : String) (p : Placeholder)

/-- An emitter that finds nothing to take would have left nothing either. -/
private theorem rest_eq_drop (h : s.rest.take n = []) : s.rest = s.rest.drop n := by
  rw [List.take_eq_nil_iff] at h
  rcases h with rfl | h
  · rfl
  · simp [h]

/-- An emitter that finds something to take records it and reads on. -/
theorem text_eq (h : s.rest.take n ≠ []) :
    s.text n = { s with
      rest := s.rest.drop n
      builder := s.builder.appendText (String.ofList (s.rest.take n))
      trailing := s.trailing.after (s.rest.take n) } := by
  unfold text
  split
  · next hnone => exact absurd hnone h
  · rfl

/-- Markup that finds something to take records it without a reading and reads on. -/
theorem markup_eq (h : s.rest.take n ≠ []) :
    s.markup n = { s with
      rest := s.rest.drop n
      builder := s.builder.appendMarkup (String.ofList (s.rest.take n)) ""
      pending := s.pending.afterMarkup } := by
  unfold markup
  split
  · next hnone => exact absurd hnone h
  · rfl

/-- Markup with a reading records it and shows the reading. -/
theorem markupAs_eq (h : s.rest.take n ≠ []) (hread : read.isEmpty = false) :
    s.markupAs n read = { s with
      rest := s.rest.drop n
      builder := s.builder.appendMarkup (String.ofList (s.rest.take n)) read
      pending := { s.pending with kept := false }
      trailing := s.trailing.after read.toList } := by
  unfold markupAs
  rw [if_neg (by simp [hread])]
  split
  · next hnone => exact absurd hnone h
  · rfl

/-- Text takes the characters that it is told to take. -/
@[simp] theorem rest_text : (s.text n).rest = s.rest.drop n := by
  unfold text
  split
  · next h => exact s.rest_eq_drop n h
  · rfl

/-- Markup takes the characters that it is told to take. -/
@[simp] theorem rest_markup : (s.markup n).rest = s.rest.drop n := by
  unfold markup
  split
  · next h => exact s.rest_eq_drop n h
  · rfl

/-- Markup with a reading takes the characters that it is told to take. -/
@[simp] theorem rest_markupAs : (s.markupAs n read).rest = s.rest.drop n := by
  unfold markupAs
  split
  · exact s.rest_markup n
  · split
    · next h => exact s.rest_eq_drop n h
    · rfl

/-- Text leaves the modes. -/
@[simp] theorem modes_text : (s.text n).modes = s.modes := by
  unfold text
  split <;> rfl

/-- Markup leaves the modes. -/
@[simp] theorem modes_markup : (s.markup n).modes = s.modes := by
  unfold markup
  split <;> rfl

/-- Markup with a reading leaves the modes. -/
@[simp] theorem modes_markupAs : (s.markupAs n read).modes = s.modes := by
  unfold markupAs
  split
  · exact s.modes_markup n
  · split <;> rfl

/-- Markup leaves the mode that the step has begun in. -/
@[simp] theorem mode_markup : (s.markup n).mode = s.mode := by
  unfold markup
  split <;> rfl

@[simp] theorem trivial_markup : (s.markup n).trivial = s.trivial := by
  unfold markup
  split <;> rfl

/-- Markup leaves what is known of the formula. -/
@[simp] theorem formula_markup : (s.markup n).formula = s.formula := by
  unfold markup
  split <;> rfl

/-- Text leaves the terminator. -/
@[simp] theorem terminator_text : (s.text n).terminator = s.terminator := by
  unfold text
  split <;> rfl

/-- Markup leaves the terminator. -/
@[simp] theorem terminator_markup : (s.markup n).terminator = s.terminator := by
  unfold markup
  split <;> rfl

/-- Markup with a reading leaves the terminator. -/
@[simp] theorem terminator_markupAs : (s.markupAs n read).terminator = s.terminator := by
  unfold markupAs
  split
  · exact s.terminator_markup n
  · split <;> rfl

@[simp] theorem placeholders_text : (s.text n).placeholders = s.placeholders := by
  unfold text
  split <;> rfl

@[simp] theorem placeholders_markup : (s.markup n).placeholders = s.placeholders := by
  unfold markup
  split <;> rfl

/-- Markup uses up no placeholder, whatever it is read as. -/
@[simp] theorem placeholders_markupAs : (s.markupAs n read).placeholders = s.placeholders := by
  unfold markupAs
  split
  · exact s.placeholders_markup n
  · split <;> rfl

/-- Markup that shows nothing leaves the flags of what is shown. -/
@[simp] theorem trailing_markup : (s.markup n).trailing = s.trailing := by
  unfold markup
  split <;> rfl

/-- Prose is added to the plain text as it is. -/
theorem plain_text :
    (s.text n).builder.plain = s.builder.plain ++ String.ofList (s.rest.take n) := by
  unfold text
  split
  · next h => simp [h]
  · simp only [AnnotatedText.Builder.appendText]
    split
    · next hraw => rw [String.isEmpty_iff.mp hraw, String.append_empty]
    · split <;> rfl

/-- Markup that shows nothing leaves the plain text. -/
@[simp] theorem plain_markup : (s.markup n).builder.plain = s.builder.plain := by
  unfold markup
  split
  · rfl
  · exact AnnotatedText.Builder.plain_appendMarkup_empty _ _

/-- Markup with a reading adds the reading to the plain text. -/
theorem plain_markupAs (h : s.rest.take n ≠ []) :
    (s.markupAs n read).builder.plain = s.builder.plain ++ read := by
  unfold markupAs
  split
  · next hempty => rw [plain_markup, String.isEmpty_iff.mp hempty, String.append_empty]
  · split
    · next hnone => exact absurd hnone h
    · simp only [AnnotatedText.Builder.appendMarkup]
      split
      · next hraw => exact absurd (by simpa using hraw) h
      · rfl

/-- Text leaves what waits. -/
@[simp] theorem pending_text : (s.text n).pending = s.pending := by
  unfold text
  split <;> rfl

/-- Markup never makes punctuation wait that did not wait before. -/
theorem punctuation_markup {c : Char} (h : (s.markup n).pending.punctuation = some c) :
    s.pending.punctuation = some c := by
  unfold markup at h
  split at h
  · exact h
  · dsimp only [Pending.afterMarkup, Pending.clear] at h
    split at h
    · exact h
    · exact nomatch h

/-- No markup leaves punctuation waiting that did not wait before. -/
theorem punctuation_markupAs {c : Char} (h : (s.markupAs n read).pending.punctuation = some c) :
    s.pending.punctuation = some c := by
  unfold markupAs at h
  split at h
  · exact s.punctuation_markup n h
  · split at h
    · exact h
    · exact h

/-- A placeholder takes the characters that it stands for. -/
@[simp] theorem rest_replace : (s.replace n language p).rest = s.rest.drop n :=
  rest_markupAs _ _ _

@[simp] theorem modes_replace : (s.replace n language p).modes = s.modes :=
  modes_markupAs _ _ _

@[simp] theorem terminator_replace : (s.replace n language p).terminator = s.terminator :=
  terminator_markupAs _ _ _

/-- A placeholder uses up its number if it is shown with one. -/
@[simp] theorem placeholders_replace : (s.replace n language p).placeholders =
    if s.hasWord then s.placeholders + 1 else s.placeholders :=
  placeholders_markupAs _ _ _

end Extract.State

end ProseLens
