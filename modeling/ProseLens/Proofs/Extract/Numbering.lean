import ProseLens.Proofs.Extract.History

/-!
# Placeholders are numbered in order

A placeholder word ends in the number that was next when it was formed, and nothing else that markup
is read as holds a digit.  So the digits tell the placeholders in a result, and counting them there
is counting what the extraction has counted: the numbers are 0, 1, 2 and so on, in the order of the
source, and the number in the last event is how many there are.

## Key results

- `Bearing.Names.shows`: what is read where a placeholder stands
- `Span.CountUp`: the numbered spans carry the numbers in order
- `History.countUp`: the calls of an extraction count up to the number of placeholders
-/

namespace ProseLens

namespace Placeholder

/-- The words that may carry a number in a language. -/
def words (language : String) (number : Nat) : List String :=
  if primarySubtag language = ['f', 'r'] then ["Jimmy-" ++ toString number]
  else ["Dummy" ++ toString number, "Dummies" ++ toString number, "Ina" ++ toString number]

/-- What is read is the word with the number, with a space before it or not, punctuation after it or
    not, and a space after that or not. -/
def Shows (language : String) (number : Nat) (read : String) : Prop :=
  ∃ before ∈ ["", " "], ∃ word ∈ words language number,
    ∃ punctuation ∈ ["", ".", ",", ":", ";", "\u2026"], ∃ after ∈ ["", " "],
      read = before ++ word ++ punctuation ++ after

instance (language : String) (number : Nat) (read : String) :
    Decidable (Shows language number read) :=
  inferInstanceAs (Decidable (∃ before ∈ ["", " "], ∃ word ∈ words language number,
    ∃ punctuation ∈ ["", ".", ",", ":", ";", "\u2026"], ∃ after ∈ ["", " "],
      read = before ++ word ++ punctuation ++ after))

/-- The word of a placeholder is one of those with its number. -/
theorem word_mem_words (p : Placeholder) (language : String) (number : Nat)
    (leadsWithVowel : Bool) : p.word language number leadsWithVowel ∈ words language number := by
  unfold words word stem
  by_cases hfrench : primarySubtag language = ['f', 'r']
  · rw [if_pos hfrench, if_pos hfrench]
    exact List.mem_singleton_self _
  · rw [if_neg hfrench, if_neg hfrench]
    split
    · simp
    · split <;> simp

/-- A number is written with at least one digit. -/
theorem exists_digit_toString (number : Nat) :
    ∃ c ∈ (toString number).toList, c.isDigit = true := by
  rw [Nat.toString_eq_repr, Nat.toList_repr]
  obtain ⟨c, hc⟩ := List.exists_mem_of_ne_nil _ (Nat.toDigits_ne_nil (b := 10) (n := number))
  exact ⟨c, hc, Nat.isDigit_of_mem_toDigits (by omega) (by omega) hc⟩

/-- A placeholder word has a digit, since every number is written with one. -/
theorem exists_digit_of_mem_words {language word : String} {number : Nat}
    (h : word ∈ words language number) : ∃ c ∈ word.toList, c.isDigit = true := by
  obtain ⟨c, hc, hdigit⟩ := exists_digit_toString number
  -- whatever the stem, the number is there in full
  have hword : ∃ stem, word = stem ++ toString number := by
    unfold words at h
    split at h
    · exact ⟨_, List.mem_singleton.mp h⟩
    · simp only [List.mem_cons, List.not_mem_nil, or_false] at h
      rcases h with h | h | h <;> exact ⟨_, h⟩
  obtain ⟨stem, rfl⟩ := hword
  refine ⟨c, ?_, hdigit⟩
  rw [String.toList_append]
  exact List.mem_append_right _ hc

/-- What shows a placeholder has a digit. -/
theorem Shows.exists_digit {language read : String} {number : Nat}
    (h : Shows language number read) : ∃ c ∈ read.toList, c.isDigit = true := by
  obtain ⟨before, -, word, hword, punctuation, -, after, -, rfl⟩ := h
  obtain ⟨c, hc, hdigit⟩ := exists_digit_of_mem_words hword
  exact ⟨c, by simp [hc], hdigit⟩

end Placeholder

namespace Span

/-- Markup that is read as something with an ASCII digit in it. -/
def isNumbered : Span → Bool
  | text _ => false
  | markup _ interpreted => interpreted.toList.any Char.isDigit

/-- Markup is numbered if its reading has a digit. -/
theorem isNumbered_markup {raw read : String} :
    (markup raw read).isNumbered = true ↔ ∃ c ∈ read.toList, c.isDigit = true :=
  List.any_eq_true

/-- Markup that shows a placeholder is numbered. -/
theorem isNumbered_of_shows {raw language read : String} {number : Nat}
    (h : Placeholder.Shows language number read) : (markup raw read).isNumbered = true :=
  isNumbered_markup.mpr h.exists_digit

/-- Markup with a bare reading is not numbered. -/
theorem isNumbered_of_bare {raw read : String} (h : Text.Bare read) :
    (markup raw read).isNumbered = false := by
  rw [← Bool.not_eq_true, isNumbered_markup]
  intro ⟨c, hc, hdigit⟩
  have hbare := h c hc
  simp [Text.isBare, hdigit] at hbare

/-- There are `count` numbered spans, and they carry the numbers from 0 on. -/
structure CountUp (language : String) (spans : List Span) (count : Nat) : Prop where
  length_eq : (spans.filter isNumbered).length = count
  shows : ∀ i span, (spans.filter isNumbered)[i]? = some span →
    Placeholder.Shows language i span.plain

namespace CountUp

variable {language : String} {spans : List Span} {count : Nat}

/-- Nothing counts up to nothing. -/
theorem nil : CountUp language [] 0 := ⟨rfl, by simp⟩

/-- Other spans do not count. -/
theorem append_other (h : CountUp language spans count) {added : List Span}
    (hadded : ∀ span ∈ added, span.isNumbered = false) :
    CountUp language (spans ++ added) count := by
  have hsame : (spans ++ added).filter isNumbered = spans.filter isNumbered := by
    -- none of the added spans counts, so that the numbered ones stay the same list
    have hnone : added.filter isNumbered = [] := by
      rw [List.filter_eq_nil_iff]
      simpa using hadded
    rw [List.filter_append, hnone, List.append_nil]
  constructor
  · rw [hsame]
    exact h.length_eq
  · rw [hsame]
    exact h.shows

/-- The next number goes to the next placeholder. -/
theorem append_numbered (h : CountUp language spans count) {raw read : String}
    (hread : Placeholder.Shows language count read) :
    CountUp language (spans ++ [.markup raw read]) (count + 1) := by
  have hmore : (spans ++ [markup raw read]).filter isNumbered =
      spans.filter isNumbered ++ [markup raw read] := by
    rw [List.filter_append, List.filter_cons_of_pos (isNumbered_of_shows hread), List.filter_nil]
  constructor
  · rw [hmore, List.length_append, h.length_eq]
    rfl
  · intro i span hspan
    rw [hmore] at hspan
    by_cases hi : i < count
    · rw [List.getElem?_append_left (by rw [h.length_eq]; exact hi)] at hspan
      exact h.shows i span hspan
    · -- there is one span after the first `count`
      rw [List.getElem?_append_right (by rw [h.length_eq]; omega), h.length_eq,
        List.getElem?_singleton] at hspan
      split at hspan
      · next hzero =>
        have hi : i = count := by omega
        rw [hi, ← Option.some.inj hspan]
        exact hread
      · cases hspan

/-- The digits tell the placeholders. -/
theorem isNumbered_iff (h : CountUp language spans count) {span : Span} (hspan : span ∈ spans) :
    span.isNumbered = true ↔
      span.isText = false ∧ ∃ number, Placeholder.Shows language number span.plain := by
  constructor
  -- the span has an index among the numbered ones, and `h` says which number stands there
  · intro hnumbered
    obtain ⟨i, hi⟩ := List.mem_iff_getElem?.mp (List.mem_filter.mpr ⟨hspan, hnumbered⟩)
    refine ⟨?_, i, h.shows i span hi⟩
    cases span with
    | text raw => cases hnumbered
    | markup raw read => rfl
  · intro ⟨hmarkup, number, hshows⟩
    cases span with
    | text raw => cases hmarkup
    | markup raw read => exact isNumbered_of_shows hshows

end CountUp

end Span

namespace Extract

/-- What is read where a placeholder stands, if what waits for it is punctuation. -/
theorem Bearing.Names.shows {b : Bearing} {language read : String}
    (hwaits : ∀ c, b.punctuation = some c → isPunctuation c = true) (h : b.Names language read) :
    Placeholder.Shows language b.placeholders read := by
  obtain ⟨p, leadsWithVowel, before, punctuation, after, rfl, hbefore, hpunctuation, hafter⟩ := h
  refine ⟨before, ?_, _, p.word_mem_words language b.placeholders leadsWithVowel, punctuation, ?_,
    after, ?_, rfl⟩
  · rcases hbefore with rfl | ⟨rfl, -⟩ <;> simp
  · rcases hpunctuation with rfl | ⟨c, hc, rfl⟩
    · simp
    -- only these five marks are ever kept for behind a placeholder
    · have hmark : c = '.' ∨ c = ',' ∨ c = ':' ∨ c = ';' ∨ c = '\u2026' := by
        simpa [isPunctuation, or_assoc] using hwaits c hc
      rcases hmark with rfl | rfl | rfl | rfl | rfl <;> decide
  · rcases hafter with rfl | rfl <;> simp

/-- Only placeholders are read with digits. -/
theorem Bearing.Reads.isNumbered {b : Bearing} {raw next : List Char} {read : String}
    (h : b.Reads raw next read) : (Span.markup (String.ofList raw) read).isNumbered = false := by
  rcases h.cases with hbare | ⟨-, rfl | rfl | rfl⟩ | ⟨-, -, rfl⟩
  · exact Span.isNumbered_of_bare hbare
  all_goals rfl

/-- The calls of an extraction count up to the number of placeholders. -/
theorem History.countUp {x : Extractor} {first s : State} {calls : List Span}
    (h : History x first calls s) (hfirst : first.placeholders = 0) :
    Span.CountUp x.options.language calls s.placeholders := by
  induction h with
  | start =>
    rw [hfirst]
    exact .nil
  -- only the last kind of record adds a number, and it adds the next one
  | silent _ _ hadded placeholders_eq ih =>
    rw [placeholders_eq]
    apply ih.append_other
    intro call hcall
    obtain ⟨raw, rfl⟩ := hadded call hcall
    rfl
  | prose _ _ _ placeholders_eq ih =>
    rw [placeholders_eq]
    apply ih.append_other
    rw [List.forall_mem_singleton]
    rfl
  | reading _ _ reads _ placeholders_eq ih =>
    rw [placeholders_eq]
    apply ih.append_other
    rw [List.forall_mem_singleton]
    exact reads.isNumbered
  | placeholder _ _ names hwaits _ placeholders_eq ih =>
    have hshows := names.shows hwaits
    rw [placeholders_eq]
    exact ih.append_numbered hshows

end Extract

/-- Building does not change what is numbered. -/
theorem AnnotatedText.countUp_ofCalls {origin : Nat} {language : String} {calls : List Span}
    {count : Nat} (hcalls : ∀ call ∈ calls, call.Grounded)
    (h : Span.CountUp language calls count) :
    Span.CountUp language (ofCalls origin calls).spans count := by
  have hsame : (ofCalls origin calls).spans.filter Span.isNumbered =
      calls.filter Span.isNumbered := by
    apply filter_spans_ofCalls origin (fun _ => rfl)
    intro call hcall hnumbered hraw
    -- a call without source is read as nothing, and has no digits
    have hplain := hcalls call hcall hraw
    cases call with
    | text raw => cases hnumbered
    | markup raw read =>
      have hread : read = "" := hplain
      rw [hread] at hnumbered
      cases hnumbered
  constructor
  · rw [hsame]
    exact h.length_eq
  · rw [hsame]
    exact h.shows

namespace Extractor

open Extract AnnotatedText

variable {x : Extractor} {origin : Nat}

/-- What has been recorded counts up to the number of placeholders so far. -/
theorem Reaches.countUp {source : List Char} {s : State} (h : x.Reaches source origin s) :
    Span.CountUp x.options.language s.builder.build.spans s.placeholders := by
  obtain ⟨calls, hcalls, hbuild⟩ := h.exists_history_build
  rw [hbuild]
  exact countUp_ofCalls hcalls.grounded (hcalls.countUp rfl)

/-- In a result, the markup that is read with an ASCII digit is the markup that a placeholder stands
    for.  The `i`-th of it, counted from 0, is read as a placeholder word with the number `i`, and
    the last event tells how many there are.  It is like that all the way: whatever is reached, so
    many placeholders are recorded as have been counted, and they have the numbers from 0 on. -/
theorem placeholders_are_numbered_in_order (x : Extractor) (source : String) (origin : Nat) :
    (∀ t, (x.extract source origin).result = .ok t →
      (∀ span ∈ t.spans, span.isNumbered = true ↔
        span.isText = false ∧
          ∃ number, Placeholder.Shows x.options.language number span.plain) ∧
      (∀ i span, (t.spans.filter Span.isNumbered)[i]? = some span →
        Placeholder.Shows x.options.language i span.plain) ∧
      (x.extract source origin).events.getLast? = some (.finished source.utf8ByteSize
        t.spans.length (t.spans.filter Span.isNumbered).length)) ∧
    (∀ s, x.Reaches source.toList origin s →
      (s.builder.build.spans.filter Span.isNumbered).length = s.placeholders ∧
      ∀ i span, (s.builder.build.spans.filter Span.isNumbered)[i]? = some span →
        Placeholder.Shows x.options.language i span.plain) := by
  constructor
  · intro t ht
    obtain ⟨last, hlast, -, rfl, hevent⟩ := exists_last_of_result_eq_ok ht
    have hcount := hlast.countUp
    refine ⟨fun span hspan => hcount.isNumbered_iff hspan, hcount.shows, ?_⟩
    rw [hevent, hcount.length_eq]
  · intro s hs
    exact ⟨hs.countUp.length_eq, hs.countUp.shows⟩

/-- Two formulas after a year, the second of which ends in a comma. -/
theorem placeholders_are_numbered_in_order_french :
    ∃ x source t, x = (⟨.builtin, { language := "FR-ca" }⟩ : Extractor) ∧
      source = "1984 $a$ $b,$" ∧ (x.extract source 0).result = .ok t ∧
      (t.spans.filter Span.isNumbered).map Span.plain = ["Jimmy-0", "Jimmy-1,"] ∧
      (x.extract source 0).events.getLast? = some (.finished source.utf8ByteSize
        t.spans.length (t.spans.filter Span.isNumbered).length) := by
  have hreads : (Extractor.extract ⟨.builtin, { language := "FR-ca" }⟩
      "1984 $a$ $b,$" 0).result.toOption.map (fun t =>
        (t.spans.filter Span.isNumbered).map Span.plain) = some ["Jimmy-0", "Jimmy-1,"] := by
    decide +kernel
  obtain ⟨t, ht, hplain⟩ := exists_result_of_map hreads
  obtain ⟨hnumbered, -⟩ := placeholders_are_numbered_in_order
    ⟨.builtin, { language := "FR-ca" }⟩ "1984 $a$ $b,$" 0
  obtain ⟨-, -, hcount⟩ := hnumbered t ht
  exact ⟨_, _, t, rfl, rfl, ht, hplain, hcount⟩

end Extractor

end ProseLens
