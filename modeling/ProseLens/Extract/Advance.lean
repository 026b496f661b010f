import ProseLens.Extract.Character

/-! # An extraction reads on

Every operation of an extraction takes a beginning off the unread text, records exactly that
beginning, and keeps the flags of `Trailing` in step with what it has recorded: it `Advances` the
state.  The emitters do so by definition, and the rest follows because all other operations are made
of them and of changes to what is remembered (`Silent`).

Nearly every construct takes at least one character: it `Consumes`.  The one exception is a
backslash at the end of the source, which begins no control sequence.

Main statements:

* `Extractor.advances_step`          a step advances the state
* `Extractor.position_lt_step_iff`   a step moves the position unless the state is `Stuck`
* `State.Advances.length_lt`         where the position moves, the unread text gets shorter
* `State.Advances.rest_eq`           where the position stays, the unread text stays -/

namespace ProseLens

namespace Extract.State

/-- `t` comes from `s` by recording `calls` and reporting `news`, newest first. -/
structure Records (s t : State) (calls : List Span) (news : List Event) : Prop where
  rest_eq : s.rest = Span.source calls ++ t.rest
  builder_eq : t.builder = s.builder.appendAll calls
  trailing_eq : t.trailing =
    calls.foldl (fun trailing call => trailing.after call.plain.toList) s.trailing
  events_eq : t.events = news ++ s.events

namespace Records

variable {s t u : State} {calls calls' : List Span} {news news' : List Event}

/-- Recordings follow each other: the calls in order, the reports with the newest first. -/
theorem trans (h : Records s t calls news) (h' : Records t u calls' news') :
    Records s u (calls ++ calls') (news' ++ news) where
  rest_eq := by rw [h.rest_eq, h'.rest_eq, Span.source_append, List.append_assoc]
  builder_eq := by rw [h'.builder_eq, h.builder_eq, AnnotatedText.Builder.appendAll_append]
  trailing_eq := by rw [h'.trailing_eq, h.trailing_eq, List.foldl_append]
  events_eq := by rw [h'.events_eq, h.events_eq, List.append_assoc]

/-- The position moves by the bytes of what is recorded. -/
theorem position_eq (h : Records s t calls news) :
    t.position = s.position + Text.byteLength (Span.source calls) := by
  rw [position, h.builder_eq]
  clear h
  show _ = s.builder.sourceLength + _
  -- the length of any builder grows with each call by what the call is given
  generalize s.builder = b
  induction calls generalizing b with
  | nil => rfl
  | cons call calls ih =>
    rw [AnnotatedText.Builder.appendAll_cons, ih, AnnotatedText.Builder.sourceLength_append,
      Span.source_cons, Text.byteLength_append, Text.byteLength_toList]
    omega

end Records

/-- What a state shows of the extraction so far, as against what it remembers of modes, formulas and
    placeholders. -/
def visible (s : State) : List Char × AnnotatedText.Builder × Trailing × List Event :=
  (s.rest, s.builder, s.trailing, s.events)

/-- `t` differs from `s` in what is remembered only. -/
def Silent (s t : State) : Prop := t.visible = s.visible

namespace Silent

variable {s t : State}

/-- A silent change leaves the unread text. -/
theorem rest_eq (h : Silent s t) : t.rest = s.rest := congrArg (·.1) h

/-- A silent change records nothing. -/
theorem builder_eq (h : Silent s t) : t.builder = s.builder := congrArg (·.2.1) h

/-- A silent change leaves the flags of what is shown. -/
theorem trailing_eq (h : Silent s t) : t.trailing = s.trailing := congrArg (·.2.2.1) h

/-- A silent change reports nothing. -/
theorem events_eq (h : Silent s t) : t.events = s.events := congrArg (·.2.2.2) h

end Silent

/-- `t` comes from `s` by reading on.  All that may be reported on the way is that the end of an
    ignored environment is not known. -/
def Advances (s t : State) : Prop :=
  ∃ calls news, Records s t calls news ∧ ∀ event ∈ news, ∃ place, event = .missingTerminator place

/-- `t` comes from `s` by reading on, and by at least one character. -/
def Consumes (s t : State) : Prop := Advances s t ∧ t.rest.length < s.rest.length

namespace Advances

variable {s t u : State}

/-- A silent change is reading on by nothing. -/
theorem of_silent (h : Silent s t) : Advances s t :=
  ⟨[], [], ⟨h.rest_eq.symm, h.builder_eq, h.trailing_eq, h.events_eq⟩, by simp⟩

/-- Reading on may take nothing at all. -/
theorem refl (s : State) : Advances s s := of_silent rfl

/-- Reading on twice is reading on. -/
theorem trans (h₁ : Advances s t) (h₂ : Advances t u) : Advances s u := by
  obtain ⟨calls₁, news₁, hrecords₁, hnews₁⟩ := h₁
  obtain ⟨calls₂, news₂, hrecords₂, hnews₂⟩ := h₂
  refine ⟨_, _, hrecords₁.trans hrecords₂, ?_⟩
  intro event hevent
  -- the newer reports stand in front
  rcases List.mem_append.mp hevent with hevent | hevent
  · exact hnews₂ event hevent
  · exact hnews₁ event hevent

/-- Reading on never makes the unread text longer. -/
theorem length_le (h : Advances s t) : t.rest.length ≤ s.rest.length := by
  obtain ⟨calls, news, hrecords, -⟩ := h
  rw [hrecords.rest_eq, List.length_append]
  omega

/-- The position moves exactly where the unread text gets shorter. -/
theorem position_lt_iff (h : Advances s t) :
    s.position < t.position ↔ t.rest.length < s.rest.length := by
  obtain ⟨calls, news, hrecords, -⟩ := h
  have hbytes := Text.length_le_byteLength (Span.source calls)
  rw [hrecords.position_eq, hrecords.rest_eq, List.length_append]
  constructor
  · intro hpos
    -- no bytes would have been recorded if no characters were
    have hne : Span.source calls ≠ [] := by
      intro hnil
      simp [hnil] at hpos
    have := List.length_pos_iff.mpr hne
    omega
  · omega

/-- Where the position moves, the unread text gets shorter. -/
theorem length_lt (h : Advances s t) (hpos : s.position < t.position) :
    t.rest.length < s.rest.length :=
  h.position_lt_iff.mp hpos

/-- Where the position stays, the unread text stays. -/
theorem rest_eq (h : Advances s t) (hpos : ¬ s.position < t.position) : t.rest = s.rest := by
  rw [h.position_lt_iff] at hpos
  obtain ⟨calls, news, hrecords, -⟩ := h
  rw [hrecords.rest_eq, List.length_append] at hpos
  have hnil : Span.source calls = [] := List.length_eq_zero_iff.mp (by omega)
  rw [hrecords.rest_eq, hnil, List.nil_append]

end Advances

namespace Consumes

variable {s t u : State}

/-- What has consumed goes on having consumed, whatever is read after it. -/
theorem trans (h₁ : Consumes s t) (h₂ : Advances t u) : Consumes s u :=
  ⟨h₁.1.trans h₂, Nat.lt_of_le_of_lt h₂.length_le h₁.2⟩

/-- It is enough that the last of two parts consumes. -/
theorem of_advances (h₁ : Advances s t) (h₂ : Consumes t u) : Consumes s u :=
  ⟨h₁.trans h₂.1, Nat.lt_of_lt_of_le h₂.2 h₁.length_le⟩

/-- A silent change before it does not matter. -/
theorem of_silent (h₁ : Silent s t) (h₂ : Consumes t u) : Consumes s u :=
  of_advances (.of_silent h₁) h₂

end Consumes

/-- All that is left is a backslash, in a mode that reads it as the start of a construct. -/
def Stuck (s : State) : Prop :=
  s.rest = ['\\'] ∧ s.modes.top ≠ .ignoredEnvironment ∧ s.modes.top ≠ .embeddedCodeChunk

/-! ## Emitters -/

variable (s : State)

/-- A text of at least one character begins with something. -/
theorem take_ne_nil {n : Nat} (hn : 0 < n) (h : s.rest ≠ []) : s.rest.take n ≠ [] := by
  rw [Ne, List.take_eq_nil_iff]
  rintro (hzero | hnil)
  · omega
  · exact h hnil

/-- Text that is shown is recorded as one text call. -/
theorem records_text {n : Nat} (h : s.rest.take n ≠ []) :
    Records s (s.text n) [.text (String.ofList (s.rest.take n))] [] := by
  unfold text
  split
  · next hnil => exact absurd hnil h
  · exact ⟨by simp, rfl, by simp, rfl⟩

/-- Markup that shows nothing is recorded as one markup call with an empty reading. -/
theorem records_markup {n : Nat} (h : s.rest.take n ≠ []) :
    Records s (s.markup n) [.markup (String.ofList (s.rest.take n)) ""] [] := by
  unfold markup
  split
  · next hnil => exact absurd hnil h
  · exact ⟨by simp, rfl, rfl, rfl⟩

/-- Markup that stands for something is recorded as one markup call with that reading. -/
theorem records_markupAs {n : Nat} (h : s.rest.take n ≠ []) (interpreted : String) :
    Records s (s.markupAs n interpreted)
      [.markup (String.ofList (s.rest.take n)) interpreted] [] := by
  unfold markupAs
  split
  · next hempty =>
    -- markup that is read as nothing is recorded like any other
    rw [String.isEmpty_iff.mp hempty]
    exact s.records_markup h
  · split
    · next hnil => exact absurd hnil h
    · exact ⟨by simp, rfl, rfl, rfl⟩

/-- Markup reads on, also where it is to take nothing and the end of the source has come. -/
theorem advances_markup (n : Nat) : Advances s (s.markup n) := by
  -- markup of no characters is no call
  by_cases h : s.rest.take n = []
  · have hsame : s.markup n = s := by simp [markup, h]
    rw [hsame]
    exact .refl s
  · exact ⟨_, _, s.records_markup h, by simp⟩

/-- What records its beginning consumes it. -/
private theorem consumes_of_records {t : State} {n : Nat} {call : Span} (hn : 0 < n)
    (h : s.rest ≠ []) (hcall : call.raw = String.ofList (s.rest.take n))
    (hrecords : Records s t [call] []) : Consumes s t := by
  refine ⟨⟨_, _, hrecords, by simp⟩, ?_⟩
  have hlength := List.length_pos_iff.mpr (s.take_ne_nil hn h)
  rw [hrecords.rest_eq]
  simp only [Span.source_cons, hcall, Span.source_nil, List.append_nil, String.toList_ofList,
    List.length_append]
  omega

/-- Shown text consumes if it is to take a character and there is one. -/
theorem consumes_text {n : Nat} (hn : 0 < n) (h : s.rest ≠ []) : Consumes s (s.text n) :=
  s.consumes_of_records hn h rfl (s.records_text (s.take_ne_nil hn h))

/-- Markup consumes if it is to take a character and there is one. -/
theorem consumes_markup {n : Nat} (hn : 0 < n) (h : s.rest ≠ []) : Consumes s (s.markup n) :=
  s.consumes_of_records hn h rfl (s.records_markup (s.take_ne_nil hn h))

/-- Markup with a reading consumes under the same conditions. -/
theorem consumes_markupAs {n : Nat} {interpreted : String} (hn : 0 < n) (h : s.rest ≠ []) :
    Consumes s (s.markupAs n interpreted) :=
  s.consumes_of_records hn h rfl (s.records_markupAs (s.take_ne_nil hn h) interpreted)

/-- A placeholder consumes what it stands for. -/
theorem consumes_replace {n : Nat} {language : String} {p : Placeholder} (hn : 0 < n)
    (h : s.rest ≠ []) : Consumes s (s.replace n language p) :=
  .of_silent (t := s.afterStandIn) rfl (consumes_markupAs _ hn h)

/-- Swallowing arguments reads on, by nothing if there are none. -/
theorem advances_swallowArguments : Advances s s.swallowArguments := by
  unfold swallowArguments
  -- the arguments are markup one after the other; of their lengths nothing needs to be known
  generalize argumentRun s.rest = lengths
  induction lengths generalizing s with
  | nil => exact .refl s
  | cons n lengths ih => exact (s.advances_markup n).trans (ih _)

/-- The rest of an environment tag reads on. -/
theorem advances_finishTag (tag : EnvironmentTag) : Advances s (s.finishTag tag) :=
  .trans (t := s.markTrivial.keepPending) (.of_silent rfl) (advances_markup _ _)

end Extract.State

namespace Extractor

open Extract Extract.State

variable (x : Extractor) (s : State)

/-! ## Environments -/

/-- The opening of an environment that is no formula consumes. -/
theorem consumes_openBody {tag : EnvironmentTag} (htag : 0 < tag.control) (h : s.rest ≠ []) :
    Consumes s (x.openBody s tag) := by
  unfold openBody
  dsimp only
  split
  · -- an environment without a signature has its control sequence read first
    refine (s.consumes_markup htag h).trans ?_
    refine .trans (t := (s.markup tag.control).push s.mode) (.of_silent rfl) ?_
    exact (advances_finishTag _ _).trans (advances_swallowArguments _)
  · next found hfound =>
    -- a signature takes at least the opening it is filed under
    have hlength : 0 < found.length := by
      have hle := Signature.Registry.length_le_of_environment?_eq_some hfound
      have hpos := List.length_pos_iff.mpr h
      rw [String.length_ofList, List.length_take] at hle
      omega
    split
    · refine .of_silent
        (t := { s.push .ignoredEnvironment with terminator := some tag.terminator })
        rfl (consumes_markup _ ?_ h)
      split
      · exact htag
      · exact hlength
    · refine .of_silent (t := s.push s.mode) rfl ?_
      split
      · refine .trans (consumes_markup _ htag h) ?_
        exact (advances_finishTag _ _).trans (advances_swallowArguments _)
      · exact .trans (consumes_markup _ hlength h) (.of_silent rfl)

/-- The opening of an environment consumes. -/
theorem consumes_openEnvironment {tag : EnvironmentTag} (htag : 0 < tag.control)
    (h : s.rest ≠ []) : Consumes s (x.openEnvironment s tag) := by
  unfold openEnvironment
  refine .of_silent (t := s.keepPending) rfl ?_
  dsimp only
  -- formulas are opened without asking for a signature
  split
  · refine .trans (consumes_markup _ htag h) ?_
    refine .trans ?_ ((advances_finishTag _ _).trans (advances_swallowArguments _))
    split
    · exact .of_silent rfl
    · exact .of_silent rfl
  · exact x.consumes_openBody _ htag h

/-- The closing of an environment consumes. -/
theorem consumes_closeEnvironment {tag : EnvironmentTag} (htag : 0 < tag.control)
    (h : s.rest ≠ []) : Consumes s (x.closeEnvironment s tag) := by
  unfold closeEnvironment
  refine .of_silent (t := s.keepPending) rfl ?_
  dsimp only
  split
  · -- the placeholder of a formula takes the closing tag with its name
    exact .of_silent (t := s.keepPending.pop.markTrivial) rfl (consumes_replace _ (by omega) h)
  · refine .trans (consumes_markup _ htag h) ?_
    exact .trans (t := (s.keepPending.markup tag.control).pop) (.of_silent rfl)
      (advances_finishTag _ _)

/-! ## Control sequences -/

/-- A control sequence that stands for a space consumes. -/
theorem consumes_space {n : Nat} (hn : 0 < n) (h : s.rest ≠ []) (read : String) :
    Consumes s (space s n read) := by
  unfold space
  split
  · split
    · exact s.consumes_markupAs hn h
    · refine .of_silent (t := s.keepPending) rfl ?_
      exact .trans (consumes_markup _ hn h) (.of_silent rfl)
  · exact .of_silent (t := s.keepPending) rfl (consumes_markupAs _ hn h)

/-- The short title of a heading reads on if there is one. -/
theorem advances_shortTitle : Advances s (shortTitle s) := by
  unfold shortTitle
  split
  · exact s.advances_markup _
  · exact .refl s

/-- The brace before a title reads on if there is one. -/
theorem advances_title : Advances s (title s) := by
  unfold title
  split
  · exact .trans (t := s.push .heading) (.of_silent rfl) (advances_markup _ 1)
  · exact .refl s

/-- A heading consumes its control sequence, whether or not titles follow. -/
theorem consumes_heading {n : Nat} (hn : 0 < n) (h : s.rest ≠ []) : Consumes s (heading s n) :=
  .trans (s.consumes_markup hn h) (.trans (advances_shortTitle _) (advances_title _))

/-- The command before prose in a formula consumes, with a placeholder for what came before it or
    without. -/
theorem consumes_inlineText {n : Nat} (hn : 0 < n) (h : s.rest ≠ []) :
    Consumes s (x.inlineText s n) := by
  unfold inlineText
  split
  · refine .of_silent (t := s.push .inlineText) rfl ?_
    dsimp only
    split
    · exact consumes_replace _ (by omega) h
    · exact consumes_markup _ (by omega) h
  · exact s.consumes_markup hn h

/-- A command consumes what its signature matches, or else its control sequence. -/
theorem consumes_command {token : List Char} (htoken : 0 < token.length) (h : s.rest ≠ []) :
    Consumes s (x.command s token) := by
  have hplain (lead : Lead) : Consumes s
      ({ s with formula := { s.formula with lead } }.markup token.length) :=
    .of_silent (t := { s with formula := { s.formula with lead } }) rfl
      (consumes_markup _ htoken h)
  -- without a signature, and with one that shows its arguments, only the token is markup
  unfold command
  dsimp only
  split
  · exact hplain _
  · next found hfound =>
    -- a signature is at least as long as the control sequence that it is found under
    have hlength : 0 < found.length := by
      have hle := Signature.Registry.length_le_of_command?_eq_some hfound
      rw [String.length_ofList] at hle
      omega
    split
    · exact s.consumes_markup hlength h
    · exact s.consumes_replace hlength h
    · exact hplain _

/-- A control sequence consumes, whatever it stands for. -/
theorem consumes_control {token : List Char} (htoken : 0 < token.length) (h : s.rest ≠ []) :
    Consumes s (x.control s token) := by
  have htag (attached : Option (List Char)) :
      0 < (EnvironmentTag.read s.rest token.length attached).control := by
    cases attached <;> exact htoken
  -- one case for each kind of control sequence, in the order in which they are told apart
  unfold control
  dsimp only
  split
  · exact x.consumes_openEnvironment s (htag _) h
  · exact x.consumes_closeEnvironment s (htag _) h
  · exact s.consumes_markupAs htoken h
  · exact .of_silent (t := s.enterDisplayMath) rfl (consumes_markup _ htoken h)
  · exact .of_silent (t := s.enterInlineMath) rfl (consumes_markup _ htoken h)
  · exact .of_silent (t := s.pop) rfl (consumes_replace _ htoken h)
  · exact s.consumes_markup htoken h
  · exact .of_silent (t := s.keepPending) rfl (consumes_markup _ htoken h)
  · exact x.consumes_inlineText s htoken h
  · split
    · next hlength => exact s.consumes_replace (Token.verbatim?_pos hlength) h
    · exact s.consumes_markup htoken h
  · split
    · next accent haccent =>
      -- accents are not looked for in formulas
      split at haccent
      · cases haccent
      · exact s.consumes_markupAs (Token.accent?_pos haccent) h
    · exact s.consumes_markup htoken h
  · exact consumes_space s (by omega) h _
  · exact consumes_heading s htoken h
  · exact s.consumes_markupAs htoken h
  · exact x.consumes_command s htoken h

/-- What begins with a backslash consumes, unless the backslash is all that is left. -/
theorem consumes_backslash {cs : List Char} (h : s.rest = '\\' :: cs) (hcs : cs ≠ []) :
    Consumes s (x.backslash s) := by
  have hne : s.rest ≠ [] := by simp [h]
  unfold backslash
  split
  · next n hn =>
    -- the control sequence is what is there of it, and that is at least the backslash
    refine x.consumes_control s ?_ hne
    exact List.length_pos_iff.mpr (s.take_ne_nil (Token.control?_pos hn) hne)
  · next hnone =>
    rw [h, Token.control?_eq_none_iff] at hnone
    exact absurd hnone hcs

/-- A backslash that is all that is left is left alone. -/
theorem backslash_of_lone (h : s.rest = ['\\']) : x.backslash s = s := by
  have hnone : Token.control? s.rest = none := by
    rw [h, Token.control?_eq_none_iff]
  unfold backslash
  rw [hnone]

/-! ## Other characters -/

/-- A character of an ignored environment consumes: the whole closing tag, or itself. -/
theorem consumes_ignored (h : s.rest ≠ []) : Consumes s (ignored s) := by
  unfold ignored
  split
  · -- the one report that a step can make
    have hreport : Advances s (s.report (.missingTerminator s.position)) :=
      ⟨[], [.missingTerminator s.position], ⟨rfl, rfl, rfl, rfl⟩, by simp⟩
    refine .of_advances hreport ?_
    exact .of_silent (t := (s.report (.missingTerminator s.position)).pop) rfl
      (consumes_markup _ Nat.one_pos h)
  · split
    · next hlength =>
      exact .of_silent (t := { s.pop with terminator := none }) rfl
        (consumes_markup _ (Terminator.length?_pos hlength) h)
    · exact s.consumes_markup Nat.one_pos h

/-- A character of a chunk of code consumes. -/
theorem consumes_codeChunk (h : s.rest ≠ []) (c : Char) : Consumes s (codeChunk s c) := by
  unfold codeChunk
  split
  · exact .of_silent (t := s.pop) rfl (consumes_markup _ Nat.one_pos h)
  · exact s.consumes_markup Nat.one_pos h

/-- An opening brace consumes: a length, an accented letter, or itself. -/
theorem consumes_openBrace (h : s.rest ≠ []) : Consumes s (openBrace s) := by
  unfold openBrace
  split
  · next hlength => exact s.consumes_markup (Token.dimension?_pos hlength) h
  · split
    · next haccent => exact s.consumes_markupAs (Token.accentGroup?_pos haccent) h
    · exact .of_silent (t := s.push s.mode) rfl (consumes_markup _ Nat.one_pos h)

/-- A closing brace consumes, whatever it closes. -/
theorem consumes_closeBrace (h : s.rest ≠ []) : Consumes s (closeBrace s) := by
  refine .of_silent (t := s.pop) rfl ?_
  exact .trans (consumes_markupAs _ Nat.one_pos h)
    (.of_silent rfl)

/-- A dollar sign consumes, alone or with the one after it. -/
theorem consumes_dollar (h : s.rest ≠ []) : Consumes s (x.dollar s) := by
  unfold dollar
  -- two dollar signs first, then one; either may close a formula or open it
  split
  · split
    · exact .of_silent (t := s.pop) rfl (consumes_replace _ Nat.two_pos h)
    · exact .of_silent (t := s.enterDisplayMath) rfl
        (consumes_markup _ Nat.two_pos h)
  · split
    · exact .of_silent (t := s.pop) rfl (consumes_replace _ Nat.one_pos h)
    · exact .of_silent (t := s.enterInlineMath) rfl
        (consumes_markup _ Nat.one_pos h)

/-- A comment consumes, by the percent sign if by nothing else. -/
theorem consumes_percent (h : s.rest ≠ []) : Consumes s (percent s) :=
  .of_silent (t := s.keepPending.markTrivial) rfl
    (consumes_markupAs _ (Token.comment?_getD_pos s.rest) h)

/-- A run of blanks consumes, and so does a tie or an alignment mark alone. -/
theorem consumes_blank (h : s.rest ≠ []) (c : Char) : Consumes s (blank s c) := by
  have hlength :
      0 < if (c == '~' || c == '&') = true then 1 else (Token.blanks? s.rest).getD 1 := by
    split
    · exact Nat.one_pos
    · exact Token.blanks?_getD_pos s.rest
  unfold blank
  refine .of_silent (t := s.keepPending.markTrivial) rfl ?_
  dsimp only
  -- whether the blank stands alone decides its length, and what waits after it
  generalize (if (c == '~' || c == '&') = true then 1 else (Token.blanks? s.rest).getD 1) = n
    at hlength ⊢
  have hread (read : String) : Consumes s.keepPending.markTrivial
      (if s.keepPending.markTrivial.mode.isText = true then
        s.keepPending.markTrivial.markupAs n read
      else s.keepPending.markTrivial.markup n) := by
    split
    · exact consumes_markupAs _ hlength h
    · exact consumes_markup _ hlength h
  split
  · exact .trans (hread _) (.of_silent rfl)
  · exact hread _

/-- A character with no meaning of its own consumes, shown or not. -/
theorem consumes_plainCharacter (h : s.rest ≠ []) (c : Char) : Consumes s (plainCharacter s c) := by
  unfold plainCharacter
  split
  · exact s.consumes_text Nat.one_pos h
  · exact .trans (s.consumes_markup Nat.one_pos h) (.of_silent rfl)

/-- A quotation mark consumes, alone or with its double. -/
theorem consumes_quotationMark (h : s.rest ≠ []) (c : Char) : Consumes s (quotationMark s c) := by
  unfold quotationMark
  split
  · split
    · exact s.consumes_markupAs Nat.two_pos h
    · exact consumes_plainCharacter s h c
  · exact s.consumes_markup Nat.one_pos h

/-- Dashes, lengths in brackets, chunk openings and plain characters consume. -/
theorem consumes_otherCharacter (h : s.rest ≠ []) (c : Char) :
    Consumes s (x.otherCharacter s c) := by
  unfold otherCharacter
  split
  · exact s.consumes_markupAs (by omega) h
  · split
    · exact s.consumes_markupAs Nat.two_pos h
    · dsimp only
      split
      -- a bracket and a chunk cannot both begin here, but the bracket is asked first
      · next n hn =>
        split at hn
        · exact .of_silent (t := s.markTrivial.keepPending) rfl
            (consumes_markup _ (Token.dimension?_pos hn) h)
        · cases hn
      · next n _ hn =>
        split at hn
        · exact .of_silent (t := s.push .embeddedCodeChunk) rfl
            (consumes_markup _ (Token.chunkOpener?_pos hn) h)
        · cases hn
      · exact consumes_plainCharacter s h c

/-! ## Steps -/

/-- What is done after each construct is only to remember. -/
theorem silent_settle : Silent s (settle s) := by
  unfold settle
  split
  · exact rfl
  · exact rfl

/-- The construct at the reading position consumes, unless it is left alone as a lone backslash. -/
theorem consumes_construct {c : Char} {cs : List Char} (h : s.rest = c :: cs)
    (hfree : s.rest = ['\\'] → s.mode = .ignoredEnvironment ∨ s.mode = .embeddedCodeChunk) :
    Consumes s (x.construct s c) := by
  have hne : s.rest ≠ [] := by simp [h]
  unfold construct
  split
  -- in these two modes every character is taken as it is, a backslash too
  · exact consumes_ignored s hne
  · exact consumes_codeChunk s hne c
  · next hignored hchunk =>
    split
    · -- in these modes the backslash must not be all that is left
      refine x.consumes_backslash s h ?_
      rintro rfl
      rcases hfree h with hmode | hmode
      · exact hignored hmode
      · exact hchunk hmode
    · exact consumes_openBrace s hne
    · exact consumes_closeBrace s hne
    · exact x.consumes_dollar s hne
    · exact consumes_percent s hne
    · exact consumes_blank s hne _
    · exact consumes_blank s hne _
    · exact consumes_blank s hne _
    · exact consumes_blank s hne _
    · exact consumes_blank s hne _
    · exact consumes_blank s hne _
    · exact consumes_quotationMark s hne _
    · exact consumes_quotationMark s hne _
    · exact consumes_quotationMark s hne _
    · exact x.consumes_otherCharacter s hne _

/-- A backslash that is all that is left is left alone in every mode but the two that take
    characters as they are. -/
theorem construct_of_lone (h : s.rest = ['\\']) (hignored : s.mode ≠ .ignoredEnvironment)
    (hchunk : s.mode ≠ .embeddedCodeChunk) : x.construct s '\\' = s := by
  unfold construct
  split
  · next hmode => exact absurd hmode hignored
  · next hmode => exact absurd hmode hchunk
  · exact x.backslash_of_lone s h

/-- A step reads the construct that begins with the next character, in the innermost mode. -/
theorem step_of_cons {c : Char} {cs : List Char} (h : s.rest = c :: cs) :
    x.step s = settle (x.construct { s with mode := s.modes.top, trivial := false } c) := by
  unfold step
  rw [h]

/-- A step consumes, unless the extraction is stuck. -/
theorem consumes_step (h : s.rest ≠ []) (hstuck : ¬ s.Stuck) : Consumes s (x.step s) := by
  obtain ⟨c, cs, hcons⟩ := List.exists_cons_of_ne_nil h
  rw [x.step_of_cons s hcons]
  refine .of_silent (t := { s with mode := s.modes.top, trivial := false }) rfl ?_
  refine .trans (x.consumes_construct _ hcons ?_) (.of_silent (silent_settle _))
  -- not being stuck is what the construct asks of a lone backslash
  intro hlone
  by_cases hignored : s.modes.top = .ignoredEnvironment
  · exact .inl hignored
  · right
    apply Classical.byContradiction
    intro hchunk
    exact hstuck ⟨hlone, hignored, hchunk⟩

/-- A step that is stuck leaves everything unread. -/
theorem silent_step_of_stuck (h : s.Stuck) : Silent s (x.step s) := by
  obtain ⟨hrest, hignored, hchunk⟩ := h
  have hsame := x.construct_of_lone { s with mode := s.modes.top, trivial := false } hrest
    hignored hchunk
  have hsettle := silent_settle { s with mode := s.modes.top, trivial := false }
  rw [x.step_of_cons s hrest, hsame]
  exact hsettle

/-- A step advances the state. -/
theorem advances_step : Advances s (x.step s) := by
  by_cases hrest : s.rest = []
  · have hstep : x.step s = s := by
      unfold step
      rw [hrest]
    rw [hstep]
    exact .refl s
  -- a step that can take no character records nothing, any other consumes
  · by_cases hstuck : s.Stuck
    · exact .of_silent (x.silent_step_of_stuck s hstuck)
    · exact (x.consumes_step s hrest hstuck).1

/-- A step moves the position exactly where the extraction is not stuck. -/
theorem position_lt_step_iff (h : s.rest ≠ []) : s.position < (x.step s).position ↔ ¬ s.Stuck := by
  constructor
  · intro hlt hstuck
    have hposition : (x.step s).position = s.position :=
      congrArg AnnotatedText.Builder.sourceLength (x.silent_step_of_stuck s hstuck).builder_eq
    omega
  · intro hstuck
    have hconsumes := x.consumes_step s h hstuck
    exact hconsumes.1.position_lt_iff.mpr hconsumes.2

end Extractor

end ProseLens
