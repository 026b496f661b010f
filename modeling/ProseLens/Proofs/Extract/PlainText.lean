import ProseLens.Proofs.Extract.Discipline
import ProseLens.Proofs.Extract.Tiling

/-!
# No markup reaches the plain text

The characters that begin constructs are not read as prose, and what markup is read as is put
together from tables, letters with accents, placeholder words and spaces.  So the plain text of an
extraction holds none of those characters, but for three exceptions that can be told by their spans:
spaces, paragraph breaks, and a sign that the source escapes.

## Key results

- `Span.Clean`: what the spans of an extraction look like
- `State.Emits.clean`: what a construct records is clean
- `Reaches.clean`: everything that was recorded is clean
-/

namespace ProseLens

/-- Ordinary characters and spaces only. -/
def Text.Spoken (text : String) : Prop := ∀ c ∈ text.toList, isOrdinary c = true ∨ c = ' '

instance (text : String) : Decidable (Text.Spoken text) :=
  decidable_of_iff (text.toList.all fun c => Text.isOrdinary c || c == ' ') (by simp [Text.Spoken])

/-- Two texts of ordinary characters and spaces make up another one. -/
theorem Text.Spoken.append {first second : String} (h : Spoken first) (h' : Spoken second) :
    Spoken (first ++ second) := by
  intro c hc
  rw [String.toList_append, List.mem_append] at hc
  rcases hc with hc | hc
  · exact h c hc
  · exact h' c hc

theorem Text.spoken_empty : Spoken "" := by decide

theorem Text.spoken_space : Spoken " " := by decide

/-- A span that shows no markup. -/
inductive Span.Clean : Span → Prop where
  | prose {raw : String} (h : ∀ c ∈ raw.toList, Text.isOrdinary c = true) : Clean (.text raw)
  | spoken {raw read : String} (h : Text.Spoken read) : Clean (.markup raw read)
  | paragraph {raw : String} : Clean (.markup raw "\n\n")
  | escaped {c : Char} (hc : c = '$' ∨ c = '%' ∨ c = '&') :
      Clean (.markup (String.ofList ['\\', c]) c.toString)

/-- Markup that reads as glyphs is clean. -/
theorem Span.Clean.of_glyphs {raw read : String} (h : ∀ c ∈ read.toList, Text.isGlyph c = true) :
    Clean (.markup raw read) :=
  .spoken fun c hc => .inl (Text.isOrdinary_of_isGlyph (h c hc))

/-- A character of a clean span that is not ordinary tells what the span is, unless it is a
    space. -/
theorem Span.Clean.of_special {span : Span} (h : span.Clean) {c : Char}
    (hc : c ∈ span.plain.toList) (hspecial : Text.isOrdinary c = false) :
    c = ' ' ∨ (c = '\n' ∧ ∃ raw, span = .markup raw "\n\n") ∨
      ((c = '$' ∨ c = '%' ∨ c = '&') ∧
        span = .markup (String.ofList ['\\', c]) (String.ofList [c])) := by
  -- one case for each kind of clean span; the special characters are in the last two
  cases h with
  | prose h =>
    rw [h c hc] at hspecial
    cases hspecial
  | spoken h =>
    rcases h c hc with hordinary | hspace
    · rw [hordinary] at hspecial
      cases hspecial
    · exact .inl hspace
  | @paragraph raw =>
    have hbreak : c = '\n' := by simpa using hc
    exact .inr (.inl ⟨hbreak, raw, rfl⟩)
  | @escaped d hd =>
    have hsign : c = d := by simpa [Char.toString] using hc
    rw [hsign]
    exact .inr (.inr ⟨hd, rfl⟩)

/-- What holds of all calls holds of all spans, if it holds of a text with that of its parts. -/
theorem AnnotatedText.Builder.forall_mem_recorded {P : Span → Prop}
    (happend : ∀ first second, P (.text first) → P (.text second) → P (.text (first ++ second)))
    {calls : List Span} (hcalls : ∀ call ∈ calls, P call) {b : Builder}
    (hb : ∀ span ∈ b.recorded, P span) : ∀ span ∈ (b.appendAll calls).recorded, P span := by
  induction calls generalizing b with
  | nil => exact hb
  | cons call calls ih =>
    refine ih (fun call' hmem => hcalls call' (List.mem_cons_of_mem _ hmem)) ?_
    have hcall := hcalls call List.mem_cons_self
    cases call with
    | markup raw interpreted =>
      show ∀ span ∈ (b.appendMarkup raw interpreted).recorded, P span
      unfold appendMarkup
      split
      · exact hb
      · exact List.forall_mem_cons.mpr ⟨hcall, hb⟩
    | text raw =>
      show ∀ span ∈ (b.appendText raw).recorded, P span
      unfold appendText
      split
      · exact hb
      · split
        · next last earlier hrecorded =>
          -- the last span was prose and becomes longer
          rw [hrecorded] at hb
          obtain ⟨hlast, hearlier⟩ := List.forall_mem_cons.mp hb
          exact List.forall_mem_cons.mpr ⟨happend last raw hlast hcall, hearlier⟩
        · exact List.forall_mem_cons.mpr ⟨hcall, hb⟩

/-- What is built from clean calls is clean: text that is merged stays text of ordinary
    characters. -/
theorem AnnotatedText.clean_of_calls {origin : Nat} {calls : List Span}
    (h : ∀ call ∈ calls, call.Clean) : ∀ span ∈ (ofCalls origin calls).spans, span.Clean := by
  have hrecorded : ∀ span ∈ ((Builder.start origin).appendAll calls).recorded, span.Clean := by
    refine Builder.forall_mem_recorded ?_ h (by simp [Builder.start])
    intro first second hfirst hsecond
    -- only runs of prose are ever joined into one span
    cases hfirst with | prose hfirst
    cases hsecond with | prose hsecond
    refine .prose ?_
    intro c hc
    rw [String.toList_append, List.mem_append] at hc
    rcases hc with hc | hc
    · exact hfirst c hc
    · exact hsecond c hc
  intro span hspan
  exact hrecorded span (List.mem_reverse.mp hspan)

namespace Extract

/-- Whatever markup is read as shows no markup. -/
theorem Bearing.Reads.clean {b : Bearing} {raw next : List Char} {read : String}
    (h : b.Reads raw next read) : (Span.markup (String.ofList raw) read).Clean := by
  cases h with
  | escaped hc => exact .escaped hc
  | accent hbase => exact .of_glyphs fun c hc => Token.Accent.isGlyph_of_mem_compose hbase hc
  -- letters that a control word stands for, and the digraphs of two characters
  | word _ hread => exact .of_glyphs fun c hc => Control.isGlyph_of_word hread hc
  | digraph _ hread => exact .of_glyphs (isGlyph_of_mem_digraphs _ hread)
  | dash _ hread =>
    rcases hread with rfl | rfl
    · exact .spoken (by decide)
    · exact .spoken (by decide)
  | space _ hread =>
    rcases hread with rfl | ⟨-, rfl | rfl⟩
    · exact .spoken Text.spoken_space
    · exact .spoken (by decide)
    · exact .spoken (by decide)
  | paragraph => exact .paragraph
  | title => exact .spoken (by decide)
  | gap => exact .spoken Text.spoken_space

/-- Placeholders show no markup if what waits for them is punctuation. -/
theorem Bearing.Names.spoken {b : Bearing} {language read : String}
    (hwaits : ∀ c, b.punctuation = some c → isPunctuation c = true) (h : b.Names language read) :
    Text.Spoken read := by
  obtain ⟨p, leadsWithVowel, before, punctuation, after, rfl, hbefore, hpunctuation, hafter⟩ := h
  -- the four parts of what shows a placeholder, one after the other
  have hword : Text.Spoken (p.word language b.placeholders leadsWithVowel) :=
    fun c hc => .inl (Placeholder.isOrdinary_of_mem_word hc)
  have hbefore' : Text.Spoken before := by
    rcases hbefore with rfl | ⟨rfl, -⟩
    · exact Text.spoken_empty
    · exact Text.spoken_space
  have hpunctuation' : Text.Spoken punctuation := by
    rcases hpunctuation with rfl | ⟨d, hd, rfl⟩
    · exact Text.spoken_empty
    · intro c hc
      rw [Char.toString, String.toList_singleton, List.mem_singleton] at hc
      rw [hc]
      exact .inl (isOrdinary_of_isPunctuation (hwaits d hd))
  have hafter' : Text.Spoken after := by
    rcases hafter with rfl | rfl
    · exact Text.spoken_empty
    · exact Text.spoken_space
  exact ((hbefore'.append hword).append hpunctuation').append hafter'

namespace State

/-- What a construct records is clean. -/
theorem Emits.clean {x : Extractor} {s t : State} (h : Emits x s t)
    (hwaits : ∀ c, s.pending.punctuation = some c → isPunctuation c = true) :
    ∃ calls, Records s t calls [] ∧ ∀ call ∈ calls, call.Clean := by
  cases h with
  | silent calls records hcalls =>
    refine ⟨calls, records, ?_⟩
    intro call hcall
    obtain ⟨raw, rfl⟩ := hcalls call hcall
    exact .spoken Text.spoken_empty
  -- the other kinds are recorded as one call each
  | prose c _ hc records =>
    refine ⟨_, records, ?_⟩
    intro call hcall
    rw [List.mem_singleton.mp hcall]
    exact .prose (by simpa using hc)
  | reading raw read reads records =>
    refine ⟨_, records, ?_⟩
    intro call hcall
    rw [List.mem_singleton.mp hcall]
    exact reads.clean
  | placeholder raw read names records =>
    refine ⟨_, records, ?_⟩
    intro call hcall
    rw [List.mem_singleton.mp hcall]
    exact .spoken (names.spoken hwaits)

/-- From `first` on nothing but clean spans was recorded, and what waits is punctuation. -/
structure CleanSince (first s : State) : Prop where
  exists_calls : ∃ calls news, Records first s calls news ∧ ∀ call ∈ calls, call.Clean
  waits : ∀ c, s.pending.punctuation = some c → isPunctuation c = true

/-- A construct keeps the record clean. -/
theorem CleanSince.acts {x : Extractor} {first s t : State} (h : CleanSince first s)
    (hacts : Acts x { s with mode := s.modes.top, trivial := false } t) : CleanSince first t := by
  obtain ⟨calls, news, hrecords, hcalls⟩ := h.exists_calls
  obtain ⟨calls', hrecords', hcalls'⟩ := hacts.emits.clean h.waits
  refine ⟨⟨calls ++ calls', [] ++ news, hrecords.trans (hrecords'.of_silent rfl rfl), ?_⟩, ?_⟩
  · exact List.forall_mem_append.mpr ⟨hcalls, hcalls'⟩
  · intro c hc
    rcases hacts.punctuation c hc with hc | hc
    · exact h.waits c hc
    · exact hc

/-- A skip keeps the record clean, since it shows nothing. -/
theorem CleanSince.skip {first s : State} (h : CleanSince first s) (source : List Char)
    (hrest : s.rest ≠ []) : CleanSince first (s.skip source) := by
  obtain ⟨calls, news, hrecords, hcalls⟩ := h.exists_calls
  refine ⟨⟨_, _, hrecords.trans (records_skip source hrest), ?_⟩, ?_⟩
  · refine List.forall_mem_append.mpr ⟨hcalls, ?_⟩
    intro call hcall
    rw [List.mem_singleton.mp hcall]
    exact .spoken Text.spoken_empty
  · intro c hc
    exact h.waits c ((s.report (.skipped s.mode (s.stall source))).punctuation_markup 1 hc)

end State

end Extract

namespace Extractor

open Extract AnnotatedText

variable {x : Extractor} {origin : Nat}

/-- The record is clean in every state that is reached. -/
theorem Reaches.clean {source : List Char} {s : State} (h : x.Reaches source origin s) :
    State.CleanSince (State.start source origin) s := by
  induction h with
  | start => exact ⟨⟨[], [], ⟨rfl, rfl, rfl, rfl⟩, by simp⟩, nofun⟩
  | step h hrest _ ih => exact ih.acts (h.acts_step hrest)
  | @skip s h hstalls _ ih =>
    refine (ih.acts (h.acts_step hstalls.1)).skip source ?_
    rw [rest_step_of_stalls hstalls]
    exact hstalls.1

/-- All spans of a result are clean. -/
theorem clean_of_result_eq_ok {source : String} {t : AnnotatedText}
    (h : (x.extract source origin).result = .ok t) : ∀ span ∈ t.spans, span.Clean := by
  rcases x.run_cases source.toList origin with ⟨last, hlast, -, hrun⟩ | ⟨s, -, -, -, hrun⟩
  · rw [extract, hrun] at h
    obtain rfl := Except.ok.inj h
    obtain ⟨calls, news, hrecords, hcalls⟩ := hlast.clean.exists_calls
    show ∀ span ∈ last.builder.build.spans, span.Clean
    rw [hrecords.builder_eq]
    exact clean_of_calls hcalls
  -- a stall gives an error and no text
  · rw [extract, hrun] at h
    cases h

/-- The spans of a result are the source cut into pieces, and what they contribute is the plain
    text.  No span of prose holds a character that begins a construct.  The plain text holds no
    backslash, brace, tie, tab or carriage return at all; a line feed in it comes from a span that
    is read as a paragraph break, and a dollar, percent or ampersand sign from a span that escapes
    this sign and is read as nothing else. -/
theorem plain_text_shows_no_markup (x : Extractor) (source : String) (origin : Nat)
    (t : AnnotatedText) (h : (x.extract source origin).result = .ok t) :
    String.join (t.spans.map Span.raw) = source ∧
    t.plain = String.join (t.spans.map Span.plain) ∧
    (∀ raw, .text raw ∈ t.spans → ∀ c ∈ raw.toList,
      c ∉ ['\\', '{', '}', '$', '%', '&', '~', ' ', '\t', '\r', '\n']) ∧
    (∀ c ∈ t.plain.toList, c ∉ ['\\', '{', '}', '~', '\t', '\r']) ∧
    (∀ span ∈ t.spans, '\n' ∈ span.plain.toList → ∃ raw, span = .markup raw "\n\n") ∧
    (∀ span ∈ t.spans, ∀ c ∈ ['$', '%', '&'], c ∈ span.plain.toList →
      span = .markup (String.ofList ['\\', c]) (String.ofList [c])) := by
  have hclean := clean_of_result_eq_ok h
  obtain ⟨calls, rfl, hcalls⟩ := exists_calls_of_result_eq_ok h
  have hplain := (wellFormed_ofCalls origin calls).plain_eq
  refine ⟨(sourceText_ofCalls origin calls).trans hcalls, hplain, ?_, ?_, ?_, ?_⟩
  · intro raw hmem c hc
    cases hclean _ hmem with
    | prose hordinary => exact Text.isOrdinary_iff.mp (hordinary c hc)
  · intro c hc hspecial
    rw [hplain, String.toList_join, List.mem_flatMap] at hc
    obtain ⟨text, htext, hc⟩ := hc
    obtain ⟨span, hspan, rfl⟩ := List.mem_map.mp htext
    -- none of these six is a space, a line feed or a sign that can be escaped
    have hnever : ∀ c ∈ ['\\', '{', '}', '~', '\t', '\r'],
        Text.isOrdinary c = false ∧ c ≠ ' ' ∧ c ≠ '\n' ∧ ¬ (c = '$' ∨ c = '%' ∨ c = '&') := by
      simp [Text.isOrdinary, Text.specials]
    obtain ⟨hnotOrdinary, hspace, hbreak, hsign⟩ := hnever c hspecial
    rcases (hclean span hspan).of_special hc hnotOrdinary with h | ⟨h, -⟩ | ⟨h, -⟩
    · exact hspace h
    · exact hbreak h
    · exact hsign h
  · intro span hspan hc
    rcases (hclean span hspan).of_special hc (by decide) with hspace | ⟨-, hbreak⟩ | ⟨hsign, -⟩
    · exact absurd hspace (by decide)
    · exact hbreak
    · exact absurd hsign (by decide)
  · intro span hspan c hsign hc
    have hsigns : ∀ c ∈ ['$', '%', '&'], Text.isOrdinary c = false ∧ c ≠ ' ' ∧ c ≠ '\n' := by
      simp [Text.isOrdinary, Text.specials]
    obtain ⟨hnotOrdinary, hspace, hbreak⟩ := hsigns c hsign
    rcases (hclean span hspan).of_special hc hnotOrdinary with h | ⟨h, -⟩ | ⟨-, hescaped⟩
    · exact absurd h hspace
    · exact absurd h hbreak
    · exact hescaped

/-- A verbatim text that does not end, an escaped sign, a paragraph break and a stray brace. -/
theorem plain_text_shows_no_markup_malformed :
    ∃ t, (Extractor.builtin.extract "\\verb|a \\%\n\n\x7d" 0).result = .ok t ∧
      t.plain = "|a %\n\n" ∧ ∀ c ∈ t.plain.toList, c ∉ ['\\', '{', '}', '~', '\t', '\r'] := by
  have hplain : (Extractor.builtin.extract "\\verb|a \\%\n\n\x7d" 0).result.toOption.map
      AnnotatedText.plain = some "|a %\n\n" := by decide +kernel
  cases hresult : (Extractor.builtin.extract "\\verb|a \\%\n\n\x7d" 0).result with
  | error stall =>
    rw [hresult] at hplain
    cases hplain
  | ok t =>
    rw [hresult] at hplain
    exact ⟨t, rfl, Option.some.inj hplain,
      (plain_text_shows_no_markup _ _ _ t hresult).2.2.2.1⟩

end Extractor

end ProseLens
