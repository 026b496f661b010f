import ProseLens.Proofs.Extract.History

/-!
# How the plain text ends

An extraction remembers how the plain text ends instead of looking at it.  What it remembers follows
every call that it makes, and the plain text is what the calls have added.  So the two stay in step
(`Trailing.Tells`) as long as no call reads as something where the builder has nothing to record,
and no construct makes such a call.

## Key results

- `State.Records.tells`: recording keeps what is remembered true of the plain text
- `Reaches.tells`: it is true in every state that is reached
-/

namespace ProseLens

namespace Extract

/-- What is remembered of the end of a plain text is true of it. -/
structure Trailing.Tells (trailing : Trailing) (plain : String) : Prop where
  space_iff : trailing.space = true ↔
    ∃ c, plain.toList.getLast? = some c ∧ c ∈ [' ', '\n', '\r']
  punctuation_iff : trailing.punctuation = true ↔
    ∃ c, plain.toList.getLast? = some c ∧ c ∈ ['.', ',', ':', ';', '\u2026']

/-- What is remembered is true if it is remembered from the start of the text. -/
theorem Trailing.tells_after (plain : String) :
    (Trailing.after {} plain.toList).Tells plain := by
  cases hlast : plain.toList.getLast? with
  | none => exact ⟨by simp [after, hlast], by simp [after, hlast]⟩
  | some c =>
    refine ⟨?_, ?_⟩
    · simp [after, hlast, ofChar, or_assoc]
    · simp [after, hlast, ofChar, isPunctuation, or_assoc]

/-- Only one thing is true of the end of a text. -/
theorem Trailing.Tells.eq_after {trailing : Trailing} {plain : String}
    (h : trailing.Tells plain) : trailing = Trailing.after {} plain.toList := by
  have hafter := tells_after plain
  have hspace := Bool.eq_iff_iff.mpr (h.space_iff.trans hafter.space_iff.symm)
  have hpunctuation := Bool.eq_iff_iff.mpr (h.punctuation_iff.trans hafter.punctuation_iff.symm)
  obtain ⟨space, punctuation⟩ := trailing
  dsimp only at hspace hpunctuation
  rw [hspace, hpunctuation]

namespace State

variable {x : Extractor} {s t : State} {calls : List Span} {news : List Event}

/-- Recording keeps what is remembered true of the plain text. -/
theorem Records.tells (h : Records s t calls news) (hcalls : ∀ call ∈ calls, call.Grounded)
    (hs : s.trailing.Tells s.builder.plain) : t.trailing.Tells t.builder.plain := by
  have hplain : t.builder.plain.toList = s.builder.plain.toList ++ Span.reading calls := by
    rw [h.builder_eq, AnnotatedText.Builder.plain_appendAll _ hcalls, String.toList_append,
      Span.toList_join_plain]
  have htrailing : t.trailing = Trailing.after {} t.builder.plain.toList := by
    rw [hplain, Trailing.after_append, ← hs.eq_after, h.trailing_eq, Trailing.foldl_after]
  rw [htrailing]
  exact Trailing.tells_after _

/-- No construct makes a call that reads as something without taking some source. -/
theorem Emits.exists_grounded (h : Emits x s t) :
    ∃ calls, Records s t calls [] ∧ ∀ call ∈ calls, call.Grounded := by
  cases h with
  | silent calls records hcalls => exact ⟨calls, records, Span.grounded_of_quiet hcalls⟩
  | prose c _ _ records =>
    refine ⟨_, records, ?_⟩
    rw [List.forall_mem_singleton]
    exact Span.grounded_of_raw_ne (by simp)
  | reading raw read _ records _ hraw | placeholder raw read _ records _ hraw =>
    refine ⟨_, records, ?_⟩
    rw [List.forall_mem_singleton]
    exact Span.grounded_markup hraw read

end State

end Extract

namespace Extractor

open Extract

variable {x : Extractor} {source : List Char} {origin : Nat} {s : State}

/-- A step keeps what is remembered true of the plain text. -/
theorem Reaches.tells_step (h : x.Reaches source origin s) (hrest : s.rest ≠ [])
    (hs : s.trailing.Tells s.builder.plain) :
    (x.step s).trailing.Tells (x.step s).builder.plain := by
  obtain ⟨calls, hrecords, hcalls⟩ := (h.acts_step hrest).emits.exists_grounded
  exact hrecords.tells hcalls hs

/-- What is remembered is true of the plain text in every state that is reached. -/
theorem Reaches.tells (h : x.Reaches source origin s) : s.trailing.Tells s.builder.plain := by
  induction h with
  | start => exact Trailing.tells_after ""
  | step h hrest _ ih => exact h.tells_step hrest ih
  | @skip s h hstalls _ ih =>
    have hne : (x.step s).rest ≠ [] := by
      rw [rest_step_of_stalls hstalls]
      exact hstalls.1
    -- the character that is skipped adds nothing
    refine (State.records_skip source hne).tells ?_ (h.tells_step hstalls.1 ih)
    rw [List.forall_mem_singleton]
    exact fun _ => rfl

/-- In every state that is reached, and in the one in which the extraction ends even if it stalls
    there, the extraction remembers a space exactly if the plain text so far ends with a space or
    a character that ends a line, and punctuation exactly if it ends with a period, a comma, a
    colon, a semicolon or an ellipsis. -/
theorem trailing_tells_plain_end (x : Extractor) (source : String) (origin : Nat) :
    (∀ s, x.Reaches source.toList origin s → s.trailing.Tells s.builder.plain) ∧
    (x.run source.toList origin).last.trailing.Tells
      (x.run source.toList origin).last.builder.plain := by
  refine ⟨fun s hs => hs.tells, ?_⟩
  rcases x.run_cases source.toList origin with ⟨last, hlast, -, hrun⟩ | ⟨s, hs, hstalls, -, hrun⟩
  · rw [hrun]
    exact hlast.tells
  · -- the step that stalls has been made
    rw [hrun]
    exact hs.tells_step hstalls.1 hs.tells

/-- A placeholder that has taken over the period of its formula, and a backslash that is skipped. -/
theorem trailing_tells_plain_end_formula :
    ∃ x s, x = (⟨.builtin, { strict := false }⟩ : Extractor) ∧
      x.Reaches "a $x.$\\".toList 0 s ∧ s.rest = [] ∧ s.builder.plain = "a Ina0." ∧
      s.trailing.punctuation = true ∧ s.trailing.space = false := by
  have hplain : (Extractor.extract ⟨.builtin, { strict := false }⟩
      "a $x.$\\" 0).result.toOption.map AnnotatedText.plain = some "a Ina0." := by decide +kernel
  obtain ⟨t, ht, hplain⟩ := exists_result_of_map hplain
  obtain ⟨s, hs, hrest, rfl, -⟩ := exists_last_of_result_eq_ok ht
  have hplain : s.builder.plain = "a Ina0." := hplain
  -- the state is the final one, so that its flags tell how the plain text ends
  have htells := (trailing_tells_plain_end _ "a $x.$\\" 0).1 s hs
  rw [hplain] at htells
  refine ⟨_, s, rfl, hs, hrest, hplain, htells.punctuation_iff.mpr ⟨'.', rfl, by decide⟩, ?_⟩
  rw [← Bool.not_eq_true, htells.space_iff]
  rintro ⟨c, hc, hmem⟩
  obtain rfl := Option.some.inj hc
  exact absurd hmem (by decide)

end Extractor

end ProseLens
