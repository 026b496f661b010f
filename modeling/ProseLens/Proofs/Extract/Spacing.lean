import ProseLens.Proofs.Extract.History

/-!
# Spaces are collapsed

Spaces come from many places: runs of blanks, ties, alignment marks, commands, and the edges of
formulas on lines of their own.  All of them ask first whether the plain text ends with a space or a
line break, and a placeholder never ends with either before its own space.  So no space is added
behind a separator, with the one exception of a closing brace between two groups, which does not
ask.

## Key results

- `Text.Tight`: no space of a text is put behind a separator
- `History.spaced`: the calls of an extraction add no space behind a separator
-/

namespace ProseLens

namespace Text

/-- A space or a line feed. -/
def IsSeparator (c : Char) : Prop := c = ' ' ∨ c = '\n'

/-- If `added` is put behind `text`, none of its spaces comes right behind a separator. -/
def Tight (text added : List Char) : Prop :=
  ∀ left c d right, added = left ++ d :: right → d ∈ spaces → (text ++ left).getLast? = some c →
    ¬ IsSeparator c

variable {text first second added : List Char}

/-- Spaces and line feeds are no ordinary characters. -/
theorem not_isSeparator_of_isOrdinary {c : Char} (h : isOrdinary c = true) : ¬ IsSeparator c := by
  rintro (rfl | rfl)
  · exact absurd h (by decide)
  · exact absurd h (by decide)

/-- A text without spaces is tight behind any other. -/
theorem tight_of_no_space (h : ∀ c ∈ added, c ∉ spaces) : Tight text added := by
  intro left c d right hadded hspace
  exact absurd hspace (h d (by simp [hadded]))

/-- The empty text is tight. -/
theorem tight_nil : Tight text [] := tight_of_no_space (by simp)

/-- One character may follow whatever is no separator. -/
theorem tight_singleton (h : ∀ c, text.getLast? = some c → ¬ IsSeparator c) (d : Char) :
    Tight text [d] := by
  intro left c e right hadded _ hlast
  cases left with
  | nil =>
    rw [List.append_nil] at hlast
    exact h c hlast
  | cons _ left => simp at hadded

/-- Two parts are tight if the second one is so behind the first. -/
theorem Tight.append (h : Tight text first) (h' : Tight (text ++ first) second) :
    Tight text (first ++ second) := by
  intro left c d right hadded hspace hlast
  rcases append_eq_append_cons_cases hadded with ⟨more, hfirst, -⟩ | ⟨more, rfl, hsecond⟩
  · exact h left c d more hfirst hspace hlast
  · rw [← List.append_assoc] at hlast
    exact h' more c d right hsecond hspace hlast

end Text

namespace Extract

/-- A plain text ends with a space or a line break where its last character is a separator. -/
theorem Trailing.not_isSeparator {text : List Char} (h : (Trailing.after {} text).space = false)
    {c : Char} (hlast : text.getLast? = some c) : ¬ Text.IsSeparator c := by
  rw [after, hlast] at h
  rintro (rfl | rfl)
  · cases h
  · cases h

end Extract

namespace Span

/-- Markup that follows `text` and is followed by `next` adds no space behind a separator, unless it
    is a closing brace between two groups. -/
def Collapses (text : List Char) (raw read : String) (next : List Char) : Prop :=
  Text.Tight text read.toList ∨ (raw = "\x7d" ∧ read = " " ∧ next.head? = some '{')

/-- All markup among the spans is like that. -/
def Spaced (text : List Char) (spans : List Span) (next : List Char) : Prop :=
  ∀ before raw read after, spans = before ++ .markup raw read :: after →
    Collapses (text ++ reading before) raw read (source after ++ next)

variable {text next : List Char} {spans added : List Span}

/-- No spans are spaced. -/
theorem spaced_nil : Spaced text [] next := by
  intro before raw read after h
  simp at h

/-- One span is spaced if its reading is, behind what has been read and in front of what follows. -/
theorem spaced_singleton {raw read : String} (h : Collapses text raw read next) :
    Spaced text [.markup raw read] next := by
  intro before raw' read' after heq
  cases before with
  | nil =>
    obtain ⟨hmarkup, rfl⟩ := List.cons.inj heq
    cases hmarkup
    simpa using h
  | cons _ before => simp at heq

/-- Two runs of spans are spaced one after the other. -/
theorem Spaced.append (h : Spaced text spans (source added ++ next))
    (h' : Spaced (text ++ reading spans) added next) : Spaced text (spans ++ added) next := by
  intro before raw read after heq
  rcases append_eq_append_cons_cases heq with ⟨more, hspans, rfl⟩ | ⟨more, rfl, hadded⟩
  · rw [source_append, List.append_assoc]
    exact h before raw read more hspans
  · rw [reading_append, ← List.append_assoc]
    exact h' more raw read after hadded

/-- A space of the plain text behind a separator is a closing brace between two groups, if no text
    of its own has spaces. -/
theorem Spaced.exists_gap (h : Spaced [] spans [])
    (htext : ∀ raw, .text raw ∈ spans → ' ' ∉ raw.toList) {front back : List Char} {c : Char}
    (hreading : reading spans = front ++ c :: ' ' :: back) (hc : Text.IsSeparator c) :
    ∃ before after, spans = before ++ .markup "\x7d" " " :: after ∧ reading before = front ++ [c] ∧
      (source after).head? = some '{' := by
  have hreading' : reading spans = (front ++ [c]) ++ ' ' :: back := by simpa using hreading
  obtain ⟨before, span, after, left, right, rfl, hspan, hfront⟩ := exists_of_reading hreading'
  cases span with
  | text raw =>
    have hspace : ' ' ∈ raw.toList := by
      rw [plain_text] at hspan
      simp [hspan]
    exact absurd hspace (htext raw (by simp))
  | markup raw read =>
    rw [plain_markup] at hspan
    rcases h before raw read after rfl with htight | ⟨rfl, rfl, hnext⟩
    · have hlast : (reading before ++ left).getLast? = some c := by simp [← hfront]
      exact absurd hc (htight left c ' ' right hspan (by decide) hlast)
    · -- the space is all that the brace is read as
      have hleft : left = [] := by
        cases left with
        | nil => rfl
        | cons _ left => simp at hspan
      rw [hleft, List.append_nil] at hfront
      rw [List.append_nil] at hnext
      exact ⟨before, after, rfl, hfront.symm, hnext⟩

end Span

namespace Extract

variable {text : List Char}

/-- What a construct is read as has no space behind a space, the gap between groups apart. -/
theorem Bearing.Reads.collapses {b : Bearing} {raw next : List Char} {read : String}
    (h : b.Reads raw next read) (htrailing : b.trailing = Trailing.after {} text) :
    Span.Collapses text (String.ofList raw) read next := by
  -- a reading without spaces, one that adds a space to a text that ends in none, and the gap
  rcases h.cases with hbare | ⟨hspace, hread⟩ | ⟨rfl, hnext, rfl⟩
  · left
    exact Text.tight_of_no_space fun c hc => Text.not_mem_spaces_of_isBare (hbare c hc)
  · left
    rw [htrailing] at hspace
    have hlast := fun c => Trailing.not_isSeparator (c := c) hspace
    rcases hread with rfl | rfl | rfl <;> exact Text.tight_singleton hlast _
  · right
    exact ⟨rfl, rfl, hnext⟩

/-- A placeholder brings a space before it only where there is none, and its word or its punctuation
    stands before the space after it. -/
theorem Bearing.Names.tight {b : Bearing} {language read : String} (h : b.Names language read)
    (hwaits : ∀ c, b.punctuation = some c → isPunctuation c = true)
    (htrailing : b.trailing = Trailing.after {} text) : Text.Tight text read.toList := by
  obtain ⟨p, leadsWithVowel, before, punctuation, after, rfl, hbefore, hpunctuation, hafter⟩ := h
  rw [htrailing] at hbefore
  have hpunctuation' : ∀ c ∈ punctuation.toList, isPunctuation c = true := by
    rcases hpunctuation with rfl | ⟨d, hd, rfl⟩
    · simp
    · simpa [Char.toString] using hwaits d hd
  simp only [String.toList_append]
  refine Text.Tight.append (Text.Tight.append (Text.Tight.append ?_ ?_) ?_) ?_
  · rcases hbefore with rfl | ⟨rfl, hspace⟩
    · exact Text.tight_nil
    · exact Text.tight_singleton (fun c => Trailing.not_isSeparator hspace) ' '
  · apply Text.tight_of_no_space
    intro c hc
    exact Text.not_mem_of_class (by decide) (Placeholder.isWordCharacter_of_mem_word hc)
  · apply Text.tight_of_no_space
    intro c hc
    exact Text.not_mem_of_class (by decide) (hpunctuation' c hc)
  · rcases hafter with rfl | rfl
    · exact Text.tight_nil
    · apply Text.tight_singleton
      intro c hlast
      apply Text.not_isSeparator_of_isOrdinary
      -- what stands before the space is the punctuation, or the end of the word
      have hne := p.toList_word_ne_nil language b.placeholders leadsWithVowel
      rw [List.append_assoc before.toList, ← List.append_assoc, List.getLast?_append_of_ne_nil _
        (List.append_ne_nil_of_left_ne_nil hne _)] at hlast
      rcases List.mem_append.mp (List.mem_of_getLast? hlast) with hc | hc
      · exact Placeholder.isOrdinary_of_mem_word hc
      · exact isOrdinary_of_isPunctuation (hpunctuation' c hc)

/-- The calls of an extraction add no space behind a separator. -/
theorem History.spaced {x : Extractor} {first s : State} {calls : List Span}
    (h : History x first calls s) (hfirst : first.trailing = {}) :
    Span.Spaced [] calls s.rest := by
  have htrailing {calls : List Span} {s : State} (h : History x first calls s) :
      (Extractor.begun s).bearing.trailing = Trailing.after {} (Span.reading calls) := by
    rw [← hfirst]
    exact h.trailing_eq
  induction h with
  | start => exact Span.spaced_nil
  | silent _ records hadded _ ih =>
    rw [records.rest_eq] at ih
    apply ih.append
    intro before raw read after hsplit
    obtain ⟨raw', hquiet⟩ := hadded (.markup raw read) (by simp [hsplit])
    cases hquiet
    exact .inl Text.tight_nil
  | @prose _ _ _ c _ _ records _ ih =>
    rw [records.rest_eq] at ih
    apply ih.append
    intro before raw read after hsplit
    -- there is no markup in prose
    have hmem : Span.markup raw read ∈ [Span.text (String.ofList [c])] := by
      rw [hsplit]
      simp
    simp at hmem
  | reading h _ reads records _ ih =>
    rw [records.rest_eq] at ih
    exact ih.append (Span.spaced_singleton (reads.collapses (htrailing h)))
  | placeholder h _ names hwaits records _ ih =>
    rw [records.rest_eq] at ih
    exact ih.append (Span.spaced_singleton (.inl (names.tight hwaits (htrailing h))))

end Extract

/-- Building does not change where markup stands. -/
theorem AnnotatedText.spaced_ofCalls {origin : Nat} {calls : List Span} {next : List Char}
    (hcalls : ∀ call ∈ calls, call.Grounded) (h : Span.Spaced [] calls next) :
    Span.Spaced [] (ofCalls origin calls).spans next := by
  intro before raw read after hsplit
  obtain ⟨before', after', heq, hbefore, hafter⟩ := exists_calls_of_spans hcalls hsplit
  have hcollapses := h before' raw read after' heq
  rwa [hbefore, hafter] at hcollapses

namespace Extractor

open Extract AnnotatedText

/-- A space that comes right behind a space or a line feed in the plain text of a result is what a
    closing brace is read as that is followed by an opening one.  No other markup adds a space of
    any width right behind a space or a line feed, be it at the start of what it is read as or
    further on. -/
theorem spaces_are_collapsed (x : Extractor) (source : String) (origin : Nat) (t : AnnotatedText)
    (h : (x.extract source origin).result = .ok t) :
    (∀ front c back, t.plain.toList = front ++ c :: ' ' :: back → c = ' ' ∨ c = '\n' →
      ∃ before after, t.spans = before ++ .markup "\x7d" " " :: after ∧
        Span.reading before = front ++ [c] ∧ (Span.source after).head? = some '{') ∧
    (∀ before raw read after, t.spans = before ++ .markup raw read :: after →
      ∀ left c d right, read.toList = left ++ d :: right → d ∈ [' ', '\u00a0', '\u202f'] →
        (Span.reading before ++ left).getLast? = some c → c = ' ' ∨ c = '\n' →
          raw = "\x7d" ∧ read = " " ∧ (Span.source after).head? = some '{') := by
  have hclean := clean_of_result_eq_ok h
  obtain ⟨last, hlast, hrest, rfl, -⟩ := exists_last_of_result_eq_ok h
  obtain ⟨calls, hcalls, hbuild⟩ := hlast.exists_history_build
  rw [hbuild] at hclean ⊢
  -- the run has recorded its calls one by one, and merging text does not change what is read
  have hspaced : Span.Spaced [] (ofCalls origin calls).spans [] := by
    have hend := hcalls.spaced rfl
    rw [hrest] at hend
    exact spaced_ofCalls hcalls.grounded hend
  constructor
  · intro front c back hplain hc
    rw [(wellFormed_ofCalls origin calls).plain_eq, Span.toList_join_plain] at hplain
    refine hspaced.exists_gap ?_ hplain hc
    intro raw hraw hspace
    cases hclean _ hraw with
    | prose hordinary => exact absurd (hordinary ' ' hspace) (by decide)
  · intro before raw read after hsplit left c d right hread hspace hseparated hc
    rcases hspaced before raw read after hsplit with htight | ⟨hraw, hgap, hnext⟩
    · exact absurd hc (htight left c d right hread hspace hseparated)
    · rw [List.append_nil] at hnext
      exact ⟨hraw, hgap, hnext⟩

/-- A space at the end of a group that is followed by another. -/
theorem spaces_are_collapsed_groups :
    ∃ t, (Extractor.builtin.extract "\x7ba \x7d\x7b b\x7d" 0).result = .ok t ∧ t.plain = "a  b" ∧
      ∃ before after, t.spans = before ++ .markup "\x7d" " " :: after ∧
        Span.reading before = ['a', ' '] ∧ (Span.source after).head? = some '{' := by
  have hplain : (Extractor.builtin.extract "\x7ba \x7d\x7b b\x7d" 0).result.toOption.map
      AnnotatedText.plain = some "a  b" := by decide +kernel
  obtain ⟨t, ht, hplain⟩ := exists_result_of_map hplain
  obtain ⟨hgap, -⟩ := spaces_are_collapsed Extractor.builtin _ 0 t ht
  refine ⟨t, ht, hplain, hgap ['a'] ' ' ['b'] ?_ (.inl rfl)⟩
  rw [hplain]
  rfl

end Extractor

end ProseLens
