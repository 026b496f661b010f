import ProseLens.Proofs.AnnotatedText.Calls
import ProseLens.Proofs.Extract.Leads
import ProseLens.Proofs.Extract.PlainText

/-!
# The history of an extraction

What an extraction has recorded is the outcome of calls that it made one after the other, and each
of them was made for one of four reasons: a construct is not read as anything, is prose, is read as
something, or has a placeholder stand for it.  `History` keeps the calls together with those
reasons.  Whatever is true of all calls, each seen with those before it, is an induction over the
history.

## Key results

- `Bearing.Reads.cases`: three kinds of what markup is read as
- `Reaches.exists_history`: whatever is reached has a history
- `exists_last_of_result_eq_ok`: a result is what is recorded where everything is read
-/

namespace ProseLens

/-- Neither digits nor spaces. -/
def Text.Bare (text : String) : Prop := ∀ c ∈ text.toList, isBare c = true

/-- A text is bare if all its characters are, which is decided for a given one. -/
theorem Text.bare_of_all {text : String} (h : text.toList.all isBare = true) : Bare text :=
  List.all_eq_true.mp h

/-- A text of glyphs is bare. -/
theorem Text.bare_of_glyphs {text : String} (h : ∀ c ∈ text.toList, isGlyph c = true) :
    Bare text :=
  fun c hc => isBare_of_isGlyph (h c hc)

namespace Extract

/-- The flags behind two texts depend on the first one only where the second one is empty. -/
theorem Trailing.after_append (trailing : Trailing) (first second : List Char) :
    trailing.after (first ++ second) = (trailing.after first).after second := by
  cases second using List.reverseRecOn with
  | nil => simp [after]
  | append_singleton second c => simp [after, ← List.append_assoc]

/-- How the plain text ends depends on what was added, and not on how it was divided into calls. -/
theorem Trailing.foldl_after (trailing : Trailing) (calls : List Span) :
    calls.foldl (fun trailing call => trailing.after call.plain.toList) trailing =
      trailing.after (Span.reading calls) := by
  induction calls generalizing trailing with
  | nil => rfl
  | cons call calls ih => rw [List.foldl_cons, ih, Span.reading_cons, after_append]

/-- Spaces apart, markup is read as characters that are neither digits nor spaces.  A space is read
    where there is none yet, or between two groups. -/
theorem Bearing.Reads.cases {b : Bearing} {raw next : List Char} {read : String}
    (h : b.Reads raw next read) :
    Text.Bare read ∨
    (b.trailing.space = false ∧ (read = " " ∨ read = "\u00a0" ∨ read = "\u202f")) ∨
    (raw = ['}'] ∧ next.head? = some '{' ∧ read = " ") := by
  -- only spaces and the gap between groups show something that is not bare
  cases h with
  | escaped hc =>
    left
    rcases hc with rfl | rfl | rfl <;> exact Text.bare_of_all (by decide)
  | accent hbase =>
    left
    exact Text.bare_of_glyphs fun c hc => Token.Accent.isGlyph_of_mem_compose hbase hc
  | word _ hread =>
    left
    exact Text.bare_of_glyphs fun c hc => Control.isGlyph_of_word hread hc
  | digraph _ hread =>
    left
    exact Text.bare_of_glyphs (isGlyph_of_mem_digraphs _ hread)
  | dash _ hread =>
    left
    rcases hread with rfl | rfl <;> exact Text.bare_of_all (by decide)
  | space hspace hread =>
    right; left
    refine ⟨hspace, ?_⟩
    rcases hread with rfl | ⟨-, rfl | rfl⟩ <;> simp
  | paragraph =>
    left
    exact Text.bare_of_all (by decide)
  | title =>
    left
    exact Text.bare_of_all (by decide)
  | gap =>
    right; right
    exact ⟨rfl, rfl, rfl⟩

open State Extractor in
/-- The calls that were made on the way from `first` to a state, and why they were made. -/
inductive History (x : Extractor) (first : State) : List Span → State → Prop where
  | start : History x first [] first
  | silent {calls added : List Span} {news : List Event} {s t : State}
      (h : History x first calls s) (records : Records s t added news)
      (hadded : ∀ call ∈ added, ∃ raw, call = .markup raw "")
      (placeholders_eq : t.placeholders = s.placeholders) : History x first (calls ++ added) t
  | prose {calls : List Span} {s t : State} {c : Char} (h : History x first calls s)
      (hc : Text.isOrdinary c = true) (records : Records s t [.text (String.ofList [c])] [])
      (placeholders_eq : t.placeholders = s.placeholders) :
      History x first (calls ++ [.text (String.ofList [c])]) t
  | reading {calls : List Span} {s t : State} {raw : List Char} {read : String}
      (h : History x first calls s) (hraw : raw ≠ [])
      (reads : (begun s).bearing.Reads raw t.rest read)
      (records : Records s t [.markup (String.ofList raw) read] [])
      (placeholders_eq : t.placeholders = s.placeholders) :
      History x first (calls ++ [.markup (String.ofList raw) read]) t
  | placeholder {calls : List Span} {s t : State} {raw : List Char} {read : String}
      (h : History x first calls s) (hraw : raw ≠ [])
      (names : (begun s).bearing.Names x.options.language read)
      (hwaits : ∀ c, s.pending.punctuation = some c → isPunctuation c = true)
      (records : Records s t [.markup (String.ofList raw) read] [])
      (placeholders_eq : t.placeholders = s.placeholders + 1) :
      History x first (calls ++ [.markup (String.ofList raw) read]) t

namespace History

variable {x : Extractor} {first s t : State} {calls : List Span}

/-- A history is one recording from its first state on. -/
theorem exists_records (h : History x first calls s) :
    ∃ news, State.Records first s calls news := by
  induction h with
  | start => exact ⟨[], rfl, rfl, rfl, rfl⟩
  | silent _ records _ _ ih | prose _ _ records _ ih | reading _ _ _ records _ ih
  | placeholder _ _ _ _ records _ ih =>
    obtain ⟨news, hrecords⟩ := ih
    exact ⟨_, hrecords.trans records⟩

/-- No call contributes anything without taking some source. -/
theorem grounded (h : History x first calls s) : ∀ call ∈ calls, call.Grounded := by
  induction h with
  | start => simp
  -- quiet calls are grounded by what they are, the other three by their raw text
  | silent _ _ hadded _ ih =>
    exact List.forall_mem_append.mpr ⟨ih, Span.grounded_of_quiet hadded⟩
  | prose _ _ _ _ ih =>
    refine List.forall_mem_append.mpr ⟨ih, ?_⟩
    rw [List.forall_mem_singleton]
    exact Span.grounded_of_raw_ne (by simp)
  | reading _ hraw _ _ _ ih | placeholder _ hraw _ _ _ _ ih =>
    refine List.forall_mem_append.mpr ⟨ih, ?_⟩
    rw [List.forall_mem_singleton]
    exact Span.grounded_markup hraw _

/-- How the plain text ends can be read off the calls. -/
theorem trailing_eq (h : History x first calls s) :
    s.trailing = first.trailing.after (Span.reading calls) := by
  obtain ⟨news, hrecords⟩ := h.exists_records
  rw [hrecords.trailing_eq, Trailing.foldl_after]

/-- A construct adds to the history what it emits. -/
theorem emits (h : History x first calls s)
    (hwaits : ∀ c, s.pending.punctuation = some c → isPunctuation c = true)
    (hemits : State.Emits x (Extractor.begun s) t) :
    ∃ added, History x first (calls ++ added) t := by
  -- one kind of record for each way a step can emit
  cases hemits with
  | silent added records hadded placeholders_eq =>
    exact ⟨added, .silent h (records.of_silent rfl rfl) hadded placeholders_eq⟩
  | prose c _ hc records placeholders_eq =>
    exact ⟨_, .prose h hc (records.of_silent rfl rfl) placeholders_eq⟩
  | reading raw read reads records placeholders_eq hraw =>
    exact ⟨_, .reading h hraw reads (records.of_silent rfl rfl) placeholders_eq⟩
  | placeholder raw read names records placeholders_eq hraw =>
    exact ⟨_, .placeholder h hraw names hwaits (records.of_silent rfl rfl) placeholders_eq⟩

end History

end Extract

namespace Extractor

open Extract AnnotatedText

variable {x : Extractor} {origin : Nat}

/-- Whatever is reached has a history. -/
theorem Reaches.exists_history {source : List Char} {s : State} (h : x.Reaches source origin s) :
    ∃ calls, History x (State.start source origin) calls s := by
  induction h with
  | start => exact ⟨[], .start⟩
  | step h hrest _ ih =>
    obtain ⟨calls, hcalls⟩ := ih
    obtain ⟨added, hadded⟩ := hcalls.emits h.clean.waits (h.acts_step hrest).emits
    exact ⟨_, hadded⟩
  | @skip s h hstalls _ ih =>
    obtain ⟨calls, hcalls⟩ := ih
    obtain ⟨added, hadded⟩ := hcalls.emits h.clean.waits (h.acts_step hstalls.1).emits
    have hrest : (x.step s).rest ≠ [] := by
      rw [rest_step_of_stalls hstalls]
      exact hstalls.1
    -- the character that is skipped is not read as anything
    refine ⟨_, .silent hadded (State.records_skip source hrest) ?_ (State.placeholders_markup _ _)⟩
    rw [List.forall_mem_singleton]
    exact ⟨_, rfl⟩

/-- What is recorded in a state is what its history builds. -/
theorem Reaches.exists_history_build {source : List Char} {s : State}
    (h : x.Reaches source origin s) :
    ∃ calls, History x (State.start source origin) calls s ∧
      s.builder.build = ofCalls origin calls := by
  obtain ⟨calls, hcalls⟩ := h.exists_history
  obtain ⟨news, hrecords⟩ := hcalls.exists_records
  refine ⟨calls, hcalls, ?_⟩
  rw [hrecords.builder_eq]
  rfl

/-- A result that has been looked at is there. -/
theorem exists_result_of_map {α : Type} {source : String} {f : AnnotatedText → α} {value : α}
    (h : (x.extract source origin).result.toOption.map f = some value) :
    ∃ t, (x.extract source origin).result = .ok t ∧ f t = value := by
  cases hresult : (x.extract source origin).result with
  | error stall =>
    rw [hresult] at h
    cases h
  | ok t =>
    rw [hresult] at h
    exact ⟨t, rfl, Option.some.inj h⟩

/-- A result is what is recorded in the state in which everything is read, and the last event tells
    how many placeholders were counted by then. -/
theorem exists_last_of_result_eq_ok {source : String} {t : AnnotatedText}
    (h : (x.extract source origin).result = .ok t) :
    ∃ last, x.Reaches source.toList origin last ∧ last.rest = [] ∧ t = last.builder.build ∧
      (x.extract source origin).events.getLast? =
        some (.finished source.utf8ByteSize t.spans.length last.placeholders) := by
  rcases x.run_cases source.toList origin with ⟨last, hlast, hrest, hrun⟩ | ⟨s, -, -, -, hrun⟩
  · rw [extract, hrun] at h ⊢
    obtain rfl := Except.ok.inj h
    exact ⟨last, hlast, hrest, rfl, by simp⟩
  · rw [extract, hrun] at h
    cases h

end Extractor

end ProseLens
