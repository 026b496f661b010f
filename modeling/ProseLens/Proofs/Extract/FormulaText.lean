import ProseLens.Proofs.AnnotatedText.Calls
import ProseLens.Proofs.Extract.Discipline
import ProseLens.Proofs.Extract.Dispatch

/-!
# What is read inside a formula

A formula is read as a placeholder when it ends, and as spaces where it has commands for them.  What
is substituted in prose, accents, letters, dashes, quotation marks and paragraph breaks, is left out
of formulas.  Three notations are an exception, since what reads them does not ask for the mode: a
sign that is escaped, an accent in braces, and a comment before a blank line (`substitution?`).

## Key results

- `plain_step_of_substitution`: the three notations are read wherever constructs are
- `State.Emits.formula_cases`: what else a construct can contribute inside a formula
-/

namespace ProseLens

namespace Extract

/-- What the notation at the start of a text is read as, if it is one of those that are read in
    formulas and in prose alike. -/
def substitution? : List Char → Option String
  | '\\' :: c :: cs =>
    if (c = '$' ∨ c = '%' ∨ c = '&') ∧ cs.head? ≠ some '*' then some c.toString else none
  | '{' :: cs =>
    (Token.accentGroup? ('{' :: cs)).map fun accent =>
      Token.Accent.compose accent.mark accent.base
  | '%' :: cs =>
    if Token.hasBlankLine (('%' :: cs).take (Token.commentLength ('%' :: cs))) then some "\n\n"
    else none
  | _ => none

/-- An accent in braces is no dimension: that would not begin with a backslash. -/
theorem dimension?_eq_none_of_accentGroup? {cs : List Char} {accent : Token.Accent}
    (h : Token.accentGroup? cs = some accent) : Token.dimension? '{' '}' cs = none := by
  unfold Token.accentGroup? at h
  split at h
  · next cs =>
    split at h
    -- the accent starts with a backslash, which no dimension has
    · next haccent =>
      unfold Token.accent? at haccent
      split at haccent
      · rfl
      · cases haccent
    · cases h
  · cases h

/-- An accented letter in braces is one of the notations that are read in formulas. -/
theorem substitution?_of_accentGroup? {cs : List Char} {accent : Token.Accent}
    (h : Token.accentGroup? cs = some accent) :
    substitution? cs = some (Token.Accent.compose accent.mark accent.base) := by
  have hbrace : ∃ rest, cs = '{' :: rest := by
    unfold Token.accentGroup? at h
    split at h
    · next rest => exact ⟨rest, rfl⟩
    · cases h
  obtain ⟨rest, rfl⟩ := hbrace
  rw [substitution?, h, Option.map_some]

/-- A comment before a blank line is one of the notations that are read in formulas. -/
theorem substitution?_of_comment? {cs : List Char} {n : Nat} (h : Token.comment? cs = some n)
    (hblank : Token.hasBlankLine (cs.take n) = true) : substitution? cs = some "\n\n" := by
  have hpercent : ∃ rest, cs = '%' :: rest := by
    unfold Token.comment? at h
    split at h
    · next rest => exact ⟨rest, rfl⟩
    · cases h
  obtain ⟨rest, rfl⟩ := hpercent
  rw [substitution?, Token.commentLength, h, Option.getD_some, if_pos hblank]

/-- Inside a formula, whatever is not one of the notations is read as a space if it is read as
    something. -/
theorem Bearing.Reads.eq_space_of_isMath {b : Bearing} {raw next : List Char} {read : String}
    (h : b.Reads raw next read) (hmath : b.mode.isMath = true)
    (hnone : substitution? (raw ++ next) = none) : read = " " := by
  have hnotText := Mode.not_isText_of_isMath hmath
  have hnotProse : ¬ b.mode.isMath = false := by simp [hmath]
  -- three kinds of reading are the exceptions, spaces are what the statement allows, and all
  -- others need prose
  cases h with
  | escaped hc hnext =>
    rw [List.cons_append, List.cons_append, List.nil_append, substitution?,
      if_pos ⟨hc, hnext⟩] at hnone
    cases hnone
  | accent hbase hgroup =>
    obtain ⟨accent, haccent⟩ := Option.ne_none_iff_exists'.mp (hgroup hmath)
    rw [substitution?_of_accentGroup? haccent] at hnone
    cases hnone
  | word hmode => exact absurd hmode hnotProse
  | digraph hmode => exact absurd hmode hnotText
  | dash hmode => exact absurd hmode hnotText
  | space _ hread =>
    rcases hread with rfl | ⟨hmode, -⟩
    · rfl
    · exact absurd hmode hnotProse
  | paragraph hblank hcomment =>
    obtain ⟨n, hn, hraw⟩ := hcomment hmath
    rw [hraw] at hblank
    rw [substitution?_of_comment? hn hblank] at hnone
    cases hnone
  | title hmode =>
    rw [hmode] at hmath
    cases hmath
  | gap hmode => exact absurd hmode hnotText

/-- A placeholder holds a letter or a digit. -/
theorem Bearing.Names.exists_wordCharacter {b : Bearing} {language read : String}
    (h : b.Names language read) : ∃ c ∈ read.toList, Placeholder.isWordCharacter c = true := by
  obtain ⟨p, leadsWithVowel, before, punctuation, after, rfl, -⟩ := h
  obtain ⟨c, hc⟩ := List.exists_mem_of_ne_nil _
    (p.toList_word_ne_nil language b.placeholders leadsWithVowel)
  refine ⟨c, ?_, Placeholder.isWordCharacter_of_mem_word hc⟩
  simp [hc]

/-- The plain text grows by what the calls contribute. -/
theorem State.Records.plain_eq {s t : State} {calls : List Span} {news : List Event}
    (h : Records s t calls news) (hcalls : ∀ call ∈ calls, call.Grounded) :
    t.builder.plain = s.builder.plain ++ String.join (calls.map Span.plain) := by
  rw [h.builder_eq, s.builder.plain_appendAll hcalls]

/-- One markup call adds its reading to the plain text. -/
theorem State.Records.plain_markup_eq {s t : State} {raw : List Char} {read : String}
    {news : List Event} (h : Records s t [.markup (String.ofList raw) read] news)
    (hraw : raw ≠ []) : t.builder.plain = s.builder.plain ++ read := by
  have hgrounded : ∀ call ∈ [Span.markup (String.ofList raw) read], call.Grounded := by
    rw [List.forall_mem_singleton]
    exact Span.grounded_markup hraw read
  rw [h.plain_eq hgrounded]
  simp

/-- What a construct contributes inside a formula, unless it is one of the notations: nothing, a
    space, or a placeholder. -/
theorem State.Emits.formula_cases {x : Extractor} {s t : State} (h : Emits x s t)
    (hmath : s.mode.isMath = true) (hnone : substitution? s.rest = none) :
    ∃ added, t.builder.plain = s.builder.plain ++ added ∧
      (added = "" ∨ added = " " ∨ s.bearing.Names x.options.language added) := by
  cases h with
  | silent calls records hcalls =>
    refine ⟨"", ?_, .inl rfl⟩
    rw [records.plain_eq (Span.grounded_of_quiet hcalls), Span.join_plain_of_quiet hcalls]
  | prose c hmode => exact absurd hmode (Mode.not_isText_of_isMath hmath)
  -- what is read as something else than a placeholder is a space
  | reading raw read reads records _ hraw =>
    refine ⟨read, records.plain_markup_eq hraw, .inr (.inl ?_)⟩
    apply reads.eq_space_of_isMath hmath
    have hrest : s.rest = raw ++ t.rest := by simpa using records.rest_eq
    rw [← hrest]
    exact hnone
  | placeholder raw read names records _ hraw =>
    exact ⟨read, records.plain_markup_eq hraw, .inr (.inr names)⟩

end Extract

namespace Extractor

open Extract

variable {x : Extractor} {s : State}

/-! ## The notations -/

section Notations

variable {c : Char} {cs : List Char} (hfree : s.modes.top.isOpaque = false)

include hfree

/-- An escaped character is shown, in a formula too. -/
theorem plain_step_of_escaped (hrest : s.rest = '\\' :: c :: cs) (hc : c = '$' ∨ c = '%' ∨ c = '&')
    (hstar : cs.head? ≠ some '*') :
    (x.step s).builder.plain = s.builder.plain ++ c.toString := by
  have hcontrol : Token.control? (begun s).rest = some 2 := by
    rw [rest_begun, hrest]
    apply Token.control?_symbol _ hstar
    rcases hc with rfl | rfl | rfl <;> rfl
  have htoken : Control.ofToken ['\\', c] = .escaped c := by
    rcases hc with rfl | rfl | rfl <;> rfl
  rw [step_eq_settle hrest, builder_settle, construct_control hfree hcontrol, rest_begun, hrest]
  show (x.control (begun s) ['\\', c]).builder.plain = _
  -- the escape is read as the character in whatever mode it stands
  unfold control
  rw [htoken]
  apply State.plain_markupAs
  exact State.take_ne_nil _ Nat.two_pos (by simp [hrest])

/-- An accented letter in braces is shown, in a formula too. -/
theorem plain_step_of_accentGroup (hrest : s.rest = '{' :: cs) {accent : Token.Accent}
    (haccent : Token.accentGroup? ('{' :: cs) = some accent) :
    (x.step s).builder.plain =
      s.builder.plain ++ Token.Accent.compose accent.mark accent.base := by
  have hbrace : x.construct (begun s) '{' = openBrace (begun s) := construct_of_free hfree '{'
  rw [step_eq_settle hrest, builder_settle, hbrace, openBrace, rest_begun, hrest,
    dimension?_eq_none_of_accentGroup? haccent]
  dsimp only
  rw [haccent]
  apply State.plain_markupAs
  exact State.take_ne_nil _ (Token.accentGroup?_pos haccent) (by simp [hrest])

/-- A comment before a blank line is a paragraph break, in a formula too. -/
theorem plain_step_of_comment (hrest : s.rest = '%' :: cs)
    (hblank : Token.hasBlankLine (('%' :: cs).take (Token.commentLength ('%' :: cs))) = true) :
    (x.step s).builder.plain = s.builder.plain ++ "\n\n" := by
  obtain ⟨n, hn⟩ : ∃ n, Token.comment? ('%' :: cs) = some n := ⟨_, rfl⟩
  have hpercent : x.construct (begun s) '%' = percent (begun s) := construct_of_free hfree '%'
  rw [Token.commentLength, hn, Option.getD_some] at hblank
  rw [step_eq_settle hrest, builder_settle, hpercent, percent, rest_begun, hrest, hn,
    Option.getD_some, if_pos hblank]
  apply State.plain_markupAs
  have hne : (begun s).rest ≠ [] := by simp [hrest]
  exact State.take_ne_nil _ (Token.comment?_pos hn) hne

/-- The notations are read wherever constructs are. -/
theorem plain_step_of_substitution {read : String} (h : substitution? s.rest = some read) :
    (x.step s).builder.plain = s.builder.plain ++ read := by
  unfold substitution? at h
  -- the three notations begin with a backslash, a brace and a percent sign
  split at h
  · next c cs hrest =>
    split at h
    · next hescaped =>
      rw [← Option.some.inj h]
      exact plain_step_of_escaped hfree hrest hescaped.1 hescaped.2
    · cases h
  · next cs hrest =>
    obtain ⟨accent, haccent, rfl⟩ := Option.map_eq_some_iff.mp h
    exact plain_step_of_accentGroup hfree hrest haccent
  · next cs hrest =>
    split at h
    · next hblank =>
      rw [← Option.some.inj h]
      exact plain_step_of_comment hfree hrest hblank
    · cases h
  · cases h

end Notations

/-- Whatever is reached inside a formula, the next step adds to the plain text nothing, a space, or
    a placeholder, with a space before it or not, the punctuation that waits or not, and a space
    after it or not.  The only exceptions are an escaped sign, an accent in braces and a comment
    before a blank line, which are read as they are in prose. -/
theorem formula_is_read_as_placeholders (x : Extractor) (source : List Char) (origin : Nat)
    (s : State) (h : x.Reaches source origin s) (hmath : s.modes.top.isMath = true) :
    (∀ read, substitution? s.rest = some read →
      (x.step s).builder.plain = s.builder.plain ++ read) ∧
    (substitution? s.rest = none →
      ∃ added, (x.step s).builder.plain = s.builder.plain ++ added ∧
        (added = "" ∨ added = " " ∨ (begun s).bearing.Names x.options.language added)) := by
  constructor
  · intro read hread
    exact plain_step_of_substitution (Mode.isOpaque_of_isMath hmath) hread
  · intro hnone
    by_cases hrest : s.rest = []
    · -- there is no step at the end of the source
      refine ⟨"", ?_, .inl rfl⟩
      rw [step, hrest, String.append_empty]
    · exact (h.acts_step hrest).emits.formula_cases hmath hnone

/-- An accent without braces, which is left out. -/
theorem formula_is_read_as_placeholders_accent :
    ∃ s, Extractor.builtin.Reaches "$\\\"a$".toList 0 s ∧ s.modes.top = .inlineMath ∧
      substitution? s.rest = none ∧
      ∃ added, (Extractor.builtin.step s).builder.plain = s.builder.plain ++ added ∧
        (added = "" ∨ added = " " ∨ (begun s).bearing.Names "en-US" added) := by
  have hreaches : Extractor.builtin.Reaches "$\\\"a$".toList 0
      (Extractor.builtin.step (.start "$\\\"a$".toList 0)) :=
    reaches_first_step (by decide) (by decide)
  have hmode : (Extractor.builtin.step (.start "$\\\"a$".toList 0)).modes.top = .inlineMath := by
    decide +kernel
  have hnone : substitution? (Extractor.builtin.step (.start "$\\\"a$".toList 0)).rest = none := by
    decide +kernel
  obtain ⟨-, hadded⟩ := formula_is_read_as_placeholders _ _ _ _ hreaches (by rw [hmode]; rfl)
  exact ⟨_, hreaches, hmode, hnone, hadded hnone⟩

/-- The exceptions are there: an accent in braces is read inside a formula. -/
theorem accent_group_is_read_in_formula :
    ¬ ∀ (x : Extractor) (source : List Char) (origin : Nat) (s : State),
      x.Reaches source origin s → s.modes.top.isMath = true → s.rest ≠ [] →
        ∃ added, (x.step s).builder.plain = s.builder.plain ++ added ∧
          (added = "" ∨ added = " " ∨ (begun s).bearing.Names x.options.language added) := by
  intro h
  -- the first step opens the formula, and the second one reads the accented letter
  have hreaches : Extractor.builtin.Reaches "$\x7b\\\"a\x7d$".toList 0
      (Extractor.builtin.step (.start "$\x7b\\\"a\x7d$".toList 0)) :=
    reaches_first_step (by decide) (by decide)
  obtain ⟨added, hadded, hcases⟩ := h _ _ _ _ hreaches (by decide +kernel) (by decide +kernel)
  have hread : (Extractor.builtin.step (Extractor.builtin.step
      (.start "$\x7b\\\"a\x7d$".toList 0))).builder.plain = "\u00e4" := by decide +kernel
  have hbefore : (Extractor.builtin.step
      (.start "$\x7b\\\"a\x7d$".toList 0)).builder.plain = "" := by decide +kernel
  rw [hread, hbefore, String.empty_append] at hadded
  subst hadded
  rcases hcases with hempty | hspace | hnames
  · exact absurd hempty (by decide)
  · exact absurd hspace (by decide)
  · obtain ⟨c, hc, hword⟩ := hnames.exists_wordCharacter
    rw [List.mem_singleton.mp hc] at hword
    exact absurd hword (by decide)

end Extractor

end ProseLens
