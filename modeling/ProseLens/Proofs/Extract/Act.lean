import ProseLens.Proofs.Extract.Fields
import ProseLens.Proofs.Extract.Vocabulary

/-!
# What a construct can do

Whatever a construct is, it does one of a few things to the modes (`Shift`) and one of a few things
to the record (`Emits`): it records markup that is not read as anything, one character of prose,
markup that is read as something (`Bearing.Reads`), or markup that a placeholder stands for
(`Bearing.Names`).  All of this together is what a construct `Acts` like.

The constructs are put together from parts: changes to what is remembered before anything is
recorded (`Prepares`), markup that is not read as anything (`Quiet`), the emitters, and changes to
what is remembered afterwards (`Settles`).  So the lemmas here are those about the parts.
-/

namespace ProseLens

/-- The source is not read for constructs in this mode, but for the end of the mode only. -/
def Mode.isOpaque : Mode → Bool
  | ignoredEnvironment | embeddedCodeChunk => true
  | _ => false

/-- The two opaque modes are ignored environments and chunks of code. -/
theorem Mode.isOpaque_eq_false_iff {mode : Mode} :
    mode.isOpaque = false ↔ mode ≠ .ignoredEnvironment ∧ mode ≠ .embeddedCodeChunk := by
  cases mode <;> decide

/-- In a mode that is not opaque no environment is ignored. -/
theorem Mode.ne_ignored_of_not_isOpaque {mode : Mode} (h : mode.isOpaque = false) :
    mode ≠ .ignoredEnvironment :=
  (isOpaque_eq_false_iff.mp h).1

/-- Modes of prose are no formulas. -/
theorem Mode.isMath_of_isText {mode : Mode} (h : mode.isText = true) : mode.isMath = false := by
  cases mode <;> simp_all [isText, isMath]

/-- Formulas are no modes of prose. -/
theorem Mode.not_isText_of_isMath {mode : Mode} (h : mode.isMath = true) :
    ¬ mode.isText = true := by
  intro htext
  rw [isMath_of_isText htext] at h
  cases h

/-- Formulas are read for constructs. -/
theorem Mode.isOpaque_of_isMath {mode : Mode} (h : mode.isMath = true) :
    mode.isOpaque = false := by
  cases mode <;> simp_all [isMath, isOpaque]

namespace Extract

/-- What a construct that is begun in `mode` does to the modes and to the terminator that is
    known. -/
inductive Shift (x : Extractor) (mode : Mode) (modes : ModeStack) (terminator : Option Terminator) :
    ModeStack → Option Terminator → Prop where
  | stay : Shift x mode modes terminator modes terminator
  | enter {entered : Mode} (hfree : mode.isOpaque = false) (hmode : entered.isOpaque = false) :
      Shift x mode modes terminator (modes.push entered) terminator
  | leave (hmode : mode ≠ .ignoredEnvironment) : Shift x mode modes terminator modes.pop terminator
  | hide {hidden : Terminator} (hfree : mode.isOpaque = false) :
      Shift x mode modes terminator (modes.push .ignoredEnvironment) (some hidden)
  | reveal (hmode : mode = .ignoredEnvironment) : Shift x mode modes terminator modes.pop none
  | chunk (hfree : mode.isOpaque = false) (hdialect : x.options.dialect = .rsweave) :
      Shift x mode modes terminator (modes.push .embeddedCodeChunk) terminator

/-- What the reading of a construct depends on, besides its source. -/
structure Bearing where
  mode : Mode
  trailing : Trailing
  placeholders : Nat
  /-- The punctuation that waits. -/
  punctuation : Option Char

def State.bearing (s : State) : Bearing :=
  ⟨s.mode, s.trailing, s.placeholders, s.pending.punctuation⟩

/-- What a construct can be read as whose source is `raw` and is followed by `next`, placeholders
    apart. -/
inductive Bearing.Reads (b : Bearing) : (raw next : List Char) → (read : String) → Prop where
  | escaped {next : List Char} {c : Char} (hc : c = '$' ∨ c = '%' ∨ c = '&')
      (hnext : next.head? ≠ some '*') : b.Reads ['\\', c] next c.toString
  | accent {raw next : List Char} {mark base : Char} (hbase : Token.Accent.IsBase base)
      (hgroup : b.mode.isMath = true → Token.accentGroup? (raw ++ next) ≠ none) :
      b.Reads raw next (Token.Accent.compose mark base)
  | word {raw next token : List Char} {read : String} (hmode : b.mode.isMath = false)
      (hread : Control.ofToken token = .word read) : b.Reads raw next read
  | digraph {raw next pair : List Char} {read : String} (hmode : b.mode.isText = true)
      (hread : (pair, read) ∈ Extractor.digraphs) : b.Reads raw next read
  | dash {raw next : List Char} {read : String} (hmode : b.mode.isText = true)
      (hread : read = "\u2014" ∨ read = "\u2013") : b.Reads raw next read
  | space {raw next : List Char} {read : String} (hspace : b.trailing.space = false)
      (hread : read = " " ∨ b.mode.isMath = false ∧ (read = "\u00a0" ∨ read = "\u202f")) :
      b.Reads raw next read
  | paragraph {raw next : List Char} (hblank : Token.hasBlankLine raw = true)
      (hcomment : b.mode.isMath = true →
        ∃ n, Token.comment? (raw ++ next) = some n ∧ raw = (raw ++ next).take n) :
      b.Reads raw next "\n\n"
  | title {next : List Char} (hmode : b.mode = .heading)
      (hpunctuation : b.trailing.punctuation = false) : b.Reads ['}'] next "."
  | gap {next : List Char} (hmode : b.mode.isText = true) : b.Reads ['}'] ('{' :: next) " "

/-- A placeholder with what may stand around it: a space before it unless there is one, the
    punctuation that waits, and a space after it. -/
def Bearing.Names (b : Bearing) (language read : String) : Prop :=
  ∃ (p : Placeholder) (leadsWithVowel : Bool) (before punctuation after : String),
    read = before ++ p.word language b.placeholders leadsWithVowel ++ punctuation ++ after ∧
    (before = "" ∨ before = " " ∧ b.trailing.space = false) ∧
    (punctuation = "" ∨ ∃ c, b.punctuation = some c ∧ punctuation = c.toString) ∧
    (after = "" ∨ after = " ")

namespace State

/-- What a construct that begins in `s` does to the record. -/
inductive Emits (x : Extractor) (s t : State) : Prop where
  | silent (calls : List Span) (records : Records s t calls [])
      (hcalls : ∀ call ∈ calls, ∃ raw, call = .markup raw "")
      (placeholders_eq : t.placeholders = s.placeholders)
  | prose (c : Char) (hmode : s.mode.isText = true) (hc : Text.isOrdinary c = true)
      (records : Records s t [.text (String.ofList [c])] [])
      (placeholders_eq : t.placeholders = s.placeholders)
  | reading (raw : List Char) (read : String) (reads : s.bearing.Reads raw t.rest read)
      (records : Records s t [.markup (String.ofList raw) read] [])
      (placeholders_eq : t.placeholders = s.placeholders) (hraw : raw ≠ [])
  | placeholder (raw : List Char) (read : String) (names : s.bearing.Names x.options.language read)
      (records : Records s t [.markup (String.ofList raw) read] [])
      (placeholders_eq : t.placeholders = s.placeholders + 1) (hraw : raw ≠ [])

/-- What a construct that begins in `s` does: to the modes, to the record, and to the punctuation
    that waits. -/
structure Acts (x : Extractor) (s t : State) : Prop where
  shift : Shift x s.mode s.modes s.terminator t.modes t.terminator
  emits : Emits x s t
  punctuation : ∀ c, t.pending.punctuation = some c →
    s.pending.punctuation = some c ∨ isPunctuation c = true

/-! ## Parts of constructs -/

/-- `u` comes from `s` before anything is recorded. -/
structure Prepares (x : Extractor) (s u : State) : Prop where
  silent : Silent s u
  bearing_eq : u.bearing = s.bearing
  shift : Shift x s.mode s.modes s.terminator u.modes u.terminator

/-- `t` comes from `s` by markup that is not read as anything. -/
structure Quiet (s t : State) : Prop where
  exists_calls : ∃ calls, Records s t calls [] ∧ ∀ call ∈ calls, ∃ raw, call = .markup raw ""
  modes_eq : t.modes = s.modes
  mode_eq : t.mode = s.mode
  terminator_eq : t.terminator = s.terminator
  placeholders_eq : t.placeholders = s.placeholders
  punctuation : ∀ c, t.pending.punctuation = some c → s.pending.punctuation = some c

/-- `u` comes from `t` after everything is recorded. -/
structure Settles (t u : State) : Prop where
  silent : Silent t u
  modes_eq : u.modes = t.modes
  terminator_eq : u.terminator = t.terminator
  placeholders_eq : u.placeholders = t.placeholders
  punctuation : ∀ c, u.pending.punctuation = some c →
    t.pending.punctuation = some c ∨ isPunctuation c = true

section Parts

variable {x : Extractor} {s t u v : State}

/-- What is recorded does not depend on silent changes before and after it. -/
theorem Records.of_silent {calls : List Span} (h : Records t u calls []) (hbefore : Silent s t)
    (hafter : Silent u v) : Records s v calls [] := by
  refine ⟨?_, ?_, ?_, ?_⟩
  · rw [← hbefore.rest_eq, h.rest_eq, hafter.rest_eq]
  · rw [hafter.builder_eq, h.builder_eq, hbefore.builder_eq]
  · rw [hafter.trailing_eq, h.trailing_eq, hbefore.trailing_eq]
  · rw [hafter.events_eq, h.events_eq, hbefore.events_eq]

/-- A silent change is quiet if it keeps what `Quiet` speaks about. -/
theorem Quiet.of_silent (hsilent : Silent s t) (hmodes : t.modes = s.modes)
    (hmode : t.mode = s.mode) (hterminator : t.terminator = s.terminator)
    (hplaceholders : t.placeholders = s.placeholders)
    (hpunctuation : t.pending.punctuation = s.pending.punctuation) : Quiet s t := by
  refine ⟨⟨[], ?_, by simp⟩, hmodes, hmode, hterminator, hplaceholders, ?_⟩
  · exact ⟨hsilent.rest_eq.symm, hsilent.builder_eq, hsilent.trailing_eq, hsilent.events_eq⟩
  · intro c hc
    rwa [hpunctuation] at hc

/-- Nothing at all is quiet. -/
theorem Quiet.refl (s : State) : Quiet s s := .of_silent rfl rfl rfl rfl rfl rfl

/-- Two quiet parts follow each other quietly. -/
theorem Quiet.trans (h : Quiet s t) (h' : Quiet t u) : Quiet s u := by
  obtain ⟨calls, hrecords, hcalls⟩ := h.exists_calls
  obtain ⟨calls', hrecords', hcalls'⟩ := h'.exists_calls
  refine ⟨⟨calls ++ calls', hrecords.trans hrecords', ?_⟩, h'.modes_eq.trans h.modes_eq,
    h'.mode_eq.trans h.mode_eq, h'.terminator_eq.trans h.terminator_eq,
    h'.placeholders_eq.trans h.placeholders_eq, fun c hc => h.punctuation c (h'.punctuation c hc)⟩
  intro call hcall
  -- a call is one of the first half or of the second, and both are quiet
  rcases List.mem_append.mp hcall with hcall | hcall
  · exact hcalls call hcall
  · exact hcalls' call hcall

/-- Markup that shows nothing is quiet. -/
theorem quiet_markup (s : State) (n : Nat) : Quiet s (s.markup n) := by
  refine ⟨?_, s.modes_markup n, s.mode_markup n, s.terminator_markup n, s.placeholders_markup n,
    fun c => s.punctuation_markup n⟩
  by_cases h : s.rest.take n = []
  · have hsame : s.markup n = s := by simp [markup, h]
    rw [hsame]
    exact (Quiet.refl s).exists_calls
  · exact ⟨_, s.records_markup h, by simp⟩

/-- The rest of an environment tag is quiet. -/
theorem quiet_finishTag (s : State) (tag : EnvironmentTag) : Quiet s (s.finishTag tag) := by
  have hflags : Quiet s s.markTrivial.keepPending := .of_silent rfl rfl rfl rfl rfl rfl
  exact hflags.trans (quiet_markup _ _)

/-- Swallowed arguments are quiet. -/
theorem quiet_swallowArguments (s : State) : Quiet s s.swallowArguments := by
  unfold swallowArguments
  generalize argumentRun s.rest = lengths
  -- one argument after the other, each of them markup
  induction lengths generalizing s with
  | nil => exact .refl s
  | cons n lengths ih => exact (quiet_markup s n).trans (ih _)

/-- The record depends on nothing but the bearing. -/
theorem Emits.of_bearing (h : Emits x u t) (hsilent : Silent s u)
    (hbearing : u.bearing = s.bearing) : Emits x s t := by
  have hplaceholders : u.placeholders = s.placeholders := congrArg Bearing.placeholders hbearing
  -- each kind of record depends on the earlier state through its bearing only
  cases h with
  | silent calls records hcalls placeholders_eq =>
    exact .silent calls (records.of_silent hsilent rfl) hcalls
      (placeholders_eq.trans hplaceholders)
  | prose c hmode hc records placeholders_eq =>
    have hmode_eq : u.mode = s.mode := congrArg Bearing.mode hbearing
    rw [hmode_eq] at hmode
    exact .prose c hmode hc (records.of_silent hsilent rfl) (placeholders_eq.trans hplaceholders)
  | reading raw read reads records placeholders_eq hraw =>
    rw [hbearing] at reads
    exact .reading raw read reads (records.of_silent hsilent rfl)
      (placeholders_eq.trans hplaceholders) hraw
  | placeholder raw read names records placeholders_eq hraw =>
    rw [hbearing] at names
    rw [hplaceholders] at placeholders_eq
    exact .placeholder raw read names (records.of_silent hsilent rfl) placeholders_eq hraw

/-- Whatever a construct emits, it reports nothing. -/
theorem Emits.exists_records (h : Emits x s t) : ∃ calls, Records s t calls [] := by
  cases h with
  | silent calls records | prose c _ _ records | reading raw read _ records
  | placeholder raw read _ records => exact ⟨_, records⟩

/-! ## Constructs made of their parts -/

namespace Acts

/-- What is read in silence, with one change of the modes on the way. -/
theorem of_quiet (h : Quiet s u) (hprepares : Prepares x u v) (h' : Quiet v t) : Acts x s t := by
  obtain ⟨calls, hrecords, hcalls⟩ := h.exists_calls
  obtain ⟨calls', hrecords', hcalls'⟩ := h'.exists_calls
  have hbearing := hprepares.bearing_eq
  simp only [bearing, Bearing.mk.injEq] at hbearing
  refine ⟨?_, .silent (calls ++ calls') ?_ ?_ ?_, ?_⟩
  · -- the markup around the change touches neither modes nor terminator
    have hshift := hprepares.shift
    rw [h.mode_eq, h.modes_eq, h.terminator_eq] at hshift
    rwa [h'.modes_eq, h'.terminator_eq]
  · exact hrecords.trans (hrecords'.of_silent hprepares.silent rfl)
  · intro call hcall
    rcases List.mem_append.mp hcall with hcall | hcall
    · exact hcalls call hcall
    · exact hcalls' call hcall
  · rw [h'.placeholders_eq, hbearing.2.2.1, h.placeholders_eq]
  · intro c hc
    have hc' := h'.punctuation c hc
    rw [hbearing.2.2.2] at hc'
    exact .inl (h.punctuation c hc')

/-- What is prepared first and then done. -/
theorem of_emits (h : Prepares x s u) (h' : Emits x u t) (hmodes : t.modes = u.modes)
    (hterminator : t.terminator = u.terminator)
    (hpunctuation : ∀ c, t.pending.punctuation = some c → u.pending.punctuation = some c) :
    Acts x s t := by
  refine ⟨by rw [hmodes, hterminator]; exact h.shift, h'.of_bearing h.silent h.bearing_eq, ?_⟩
  intro c hc
  have hwaits : u.pending.punctuation = s.pending.punctuation :=
    congrArg Bearing.punctuation h.bearing_eq
  exact .inl (hwaits ▸ hpunctuation c hc)

/-- An act stays one when the state settles after it. -/
theorem settled (h : Acts x s t) (h' : Settles t u) : Acts x s u := by
  refine ⟨by rw [h'.modes_eq, h'.terminator_eq]; exact h.shift, ?_, ?_⟩
  -- settling records nothing, so that each kind of record stays of its kind
  · cases h.emits with
    | silent calls records hcalls placeholders_eq =>
      exact .silent calls (records.of_silent rfl h'.silent) hcalls
        (h'.placeholders_eq.trans placeholders_eq)
    | prose c hmode hc records placeholders_eq =>
      exact .prose c hmode hc (records.of_silent rfl h'.silent)
        (h'.placeholders_eq.trans placeholders_eq)
    | reading raw read reads records placeholders_eq hraw =>
      rw [← h'.silent.rest_eq] at reads
      exact .reading raw read reads (records.of_silent rfl h'.silent)
        (h'.placeholders_eq.trans placeholders_eq) hraw
    | placeholder raw read names records placeholders_eq hraw =>
      exact .placeholder raw read names (records.of_silent rfl h'.silent)
        (h'.placeholders_eq.trans placeholders_eq) hraw
  -- what waits afterwards waited before, or is what the construct leaves waiting
  · intro c hc
    rcases h'.punctuation c hc with hc | hc
    · exact h.punctuation c hc
    · exact .inr hc

/-- Preparing and then taking markup that shows nothing is an act. -/
theorem markup (h : Prepares x s u) (n : Nat) : Acts x s (u.markup n) :=
  of_quiet (.refl s) h (quiet_markup u n)

/-- Preparing and then taking markup is an act, if the construct may be read in that way. -/
theorem markupAs (h : Prepares x s u) {n : Nat} {read : String} (hn : 0 < n) (hrest : s.rest ≠ [])
    (hread : read = "" ∨ s.bearing.Reads (s.rest.take n) (s.rest.drop n) read) :
    Acts x s (u.markupAs n read) := by
  have hrest_eq : u.rest = s.rest := h.silent.rest_eq
  rw [← hrest_eq] at hrest hread
  rw [← h.bearing_eq] at hread
  have hraw := u.take_ne_nil hn hrest
  have hrecords := u.records_markupAs hraw read
  refine of_emits h ?_ (u.modes_markupAs n read) (u.terminator_markupAs n read)
    (fun c => u.punctuation_markupAs n read)
  -- markup that shows nothing is recorded as silent
  rcases hread with rfl | hreads
  · exact .silent _ hrecords (by simp) (u.placeholders_markupAs n "")
  · refine .reading _ read ?_ hrecords (u.placeholders_markupAs n read) hraw
    rwa [u.rest_markupAs]

end Acts

/-- What stands for a construct is nothing, a space, or a placeholder; its number is used up in the
    last case only. -/
theorem standIn_cases (s : State) (language : String) (p : Placeholder) :
    (s.hasWord = false ∧ (s.standIn language p = "" ∨
      s.standIn language p = " " ∧ s.trailing.space = false)) ∨
    (s.hasWord = true ∧ s.bearing.Names language (s.standIn language p)) := by
  have hpunctuation : s.pendingPunctuation = "" ∨
      ∃ c, s.bearing.punctuation = some c ∧ s.pendingPunctuation = c.toString := by
    unfold pendingPunctuation
    split
    · next c hc => exact .inr ⟨c, hc, rfl⟩
    · exact .inl rfl
  have hspace (b : Bool) : (if b then " " else "") = "" ∨ (if b then " " else "") = " " := by
    cases b <;> simp
  unfold standIn hasWord
  dsimp only
  split
  · next hmode =>
    -- in prose the word stands alone
    right
    refine ⟨by simp [hmode], p, s.formula.lead == .vowel, "", "", "", ?_, .inl rfl, .inl rfl,
      .inl rfl⟩
    simp [word, bearing]
  · next hmode =>
    split
    · next hempty =>
      left
      refine ⟨by simp [hmode, hempty], ?_⟩
      split
      · cases htrailing : s.trailing.space with
        | true => exact .inl rfl
        | false => exact .inr ⟨rfl, rfl⟩
      · exact .inl rfl
    · next hempty =>
      right
      refine ⟨by simp [hempty], ?_⟩
      split
      · refine ⟨p, false, _, s.pendingPunctuation, _, rfl, ?_, hpunctuation, hspace _⟩
        cases htrailing : s.trailing.space with
        | true => exact .inl rfl
        | false => exact .inr ⟨rfl, htrailing⟩
      · refine ⟨p, s.formula.lead == .vowel, "", s.pendingPunctuation, _, ?_, .inl rfl,
          hpunctuation, hspace s.pending.space⟩
        simp [word, bearing]

/-- A placeholder is recorded as one markup call that reads as what stands in. -/
theorem records_replace {n : Nat} (h : s.rest.take n ≠ []) (language : String) (p : Placeholder) :
    Records s (s.replace n language p)
      [.markup (String.ofList (s.rest.take n)) (s.standIn language p)] [] :=
  (records_markupAs s.afterStandIn h (s.standIn language p)).of_silent rfl rfl

/-- Preparing and then putting a placeholder is an act. -/
theorem Acts.replace (h : Prepares x s u) {n : Nat} {p : Placeholder} (hn : 0 < n)
    (hrest : s.rest ≠ []) : Acts x s (u.replace n x.options.language p) := by
  rw [← h.silent.rest_eq] at hrest
  have hraw := u.take_ne_nil hn hrest
  have hrecords := records_replace hraw x.options.language p
  have hplaceholders := u.placeholders_replace n x.options.language p
  refine of_emits h ?_ (u.modes_replace ..) (u.terminator_replace ..) ?_
  -- nothing stands in, or a space, or a placeholder with its number
  · rcases u.standIn_cases x.options.language p with ⟨hword, hempty | ⟨hspace, htrailing⟩⟩ |
      ⟨hword, hnames⟩
    · rw [hword, if_neg (by simp)] at hplaceholders
      rw [hempty] at hrecords
      exact .silent _ hrecords (by simp) hplaceholders
    · rw [hword, if_neg (by simp)] at hplaceholders
      rw [hspace] at hrecords
      exact .reading _ " " (.space htrailing (.inl rfl)) hrecords hplaceholders hraw
    · rw [hword, if_pos rfl] at hplaceholders
      exact .placeholder _ _ hnames hrecords hplaceholders hraw
  · intro c hc
    exact nomatch punctuation_markupAs _ _ _ hc

end Parts

/-! ## What waits and what is closed -/

section Flags

variable {x : Extractor} {s : State}

/-- Entering a mode that is not opaque prepares. -/
theorem prepares_push (hfree : s.mode.isOpaque = false) {mode : Mode}
    (hmode : mode.isOpaque = false) : Prepares x s (s.push mode) :=
  ⟨rfl, rfl, .enter hfree hmode⟩

/-- Leaving a mode prepares, unless it is an ignored environment that ends by its closing tag
    only. -/
theorem prepares_pop (hmode : s.mode ≠ .ignoredEnvironment) : Prepares x s s.pop :=
  ⟨rfl, rfl, .leave hmode⟩

/-- Doing nothing prepares. -/
theorem prepares_refl : Prepares x s s := ⟨rfl, rfl, .stay⟩

/-- Doing nothing settles. -/
theorem settles_refl (s : State) : Settles s s := ⟨rfl, rfl, rfl, rfl, fun _ => .inl⟩

end Flags

end State

end Extract

end ProseLens
