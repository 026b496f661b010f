import ProseLens.Proofs.Extract.Construct
import ProseLens.Proofs.Extract.Strictness

/-!
# The discipline of the modes

Braces, formulas and environments may be opened and closed in any order, and a source need not close
what it opens.  Still the modes keep a discipline: only the innermost one can be opaque, because an
opaque mode is read for its end and opens nothing, and a terminator is known exactly while an
ignored environment is read.  So an ignored environment is never read without knowing how it ends.

## Key results

- `Disciplined.shift`: whatever a construct does to the modes keeps the discipline
- `Reaches.disciplined`: the discipline holds in every state that is reached
-/

namespace ProseLens

namespace Extract

/-- The modes and the terminator of an extraction with options as those of `x`. -/
structure Disciplined (x : Extractor) (modes : ModeStack) (terminator : Option Terminator) :
    Prop where
  below_free : ∀ mode ∈ modes.entries.tail, mode.isOpaque = false
  isSome_iff : terminator.isSome = true ↔ modes.top = .ignoredEnvironment
  no_chunk : x.options.dialect = .latex → .embeddedCodeChunk ∉ modes.entries

variable {x : Extractor} {modes modes' : ModeStack} {terminator terminator' : Option Terminator}

/-- Below a mode that is not opaque there is none either. -/
theorem Disciplined.all_free (h : Disciplined x modes terminator)
    (hfree : modes.top.isOpaque = false) : ∀ mode ∈ modes.entries, mode.isOpaque = false := by
  obtain ⟨entries⟩ := modes
  cases entries with
  | nil => simp
  | cons top below =>
    intro mode hmode
    rcases List.mem_cons.mp hmode with rfl | hmode
    · exact hfree
    · exact h.below_free mode hmode

/-- No terminator is known outside of ignored environments. -/
theorem Disciplined.terminator_eq_none (h : Disciplined x modes terminator)
    (hmode : modes.top ≠ .ignoredEnvironment) : terminator = none := by
  cases terminator with
  | none => rfl
  | some known => exact absurd (h.isSome_iff.mp rfl) hmode

/-- Nothing opaque is left when the innermost mode is closed. -/
theorem Disciplined.pop (h : Disciplined x modes terminator) : Disciplined x modes.pop none := by
  have htop : modes.pop.top.isOpaque = false := by
    obtain ⟨entries⟩ := modes
    -- a stack of at most one mode falls back to text
    match entries with
    | [] | [_] => rfl
    | _ :: next :: _ => exact h.below_free next (by simp)
  refine ⟨?_, ?_, ?_⟩
  · intro mode hmode
    exact h.below_free mode (List.mem_of_mem_tail hmode)
  · have hne := Mode.ne_ignored_of_not_isOpaque htop
    simp [hne]
  · intro hdialect hchunk
    exact h.no_chunk hdialect (List.mem_of_mem_tail hchunk)

/-- Whatever a construct does to the modes keeps the discipline. -/
theorem Disciplined.shift (h : Disciplined x modes terminator)
    (hshift : Shift x modes.top modes terminator modes' terminator') :
    Disciplined x modes' terminator' := by
  -- one case for each way to change the modes; an opaque mode is on top in any case
  cases hshift with
  | stay => exact h
  | @enter entered hfree hmode =>
    have hnone := h.terminator_eq_none (Mode.ne_ignored_of_not_isOpaque hfree)
    have hne := Mode.ne_ignored_of_not_isOpaque hmode
    refine ⟨h.all_free hfree, by simp [hnone, hne], ?_⟩
    intro hdialect hchunk
    rcases List.mem_cons.mp hchunk with rfl | hchunk
    · exact nomatch hmode
    · exact h.no_chunk hdialect hchunk
  | leave hmode =>
    rw [h.terminator_eq_none hmode]
    exact h.pop
  | hide hfree =>
    refine ⟨h.all_free hfree, by simp, ?_⟩
    intro hdialect hchunk
    rcases List.mem_cons.mp hchunk with hchunk | hchunk
    · exact nomatch hchunk
    · exact h.no_chunk hdialect hchunk
  | reveal => exact h.pop
  | chunk hfree hdialect =>
    have hnone := h.terminator_eq_none (Mode.ne_ignored_of_not_isOpaque hfree)
    refine ⟨h.all_free hfree, by simp [hnone], ?_⟩
    intro hlatex
    rw [hdialect] at hlatex
    exact nomatch hlatex

/-- The innermost mode comes last, and nothing before it is opaque. -/
theorem Disciplined.exists_outer (h : Disciplined x modes terminator) :
    ∃ outer, modes.toList = outer ++ [modes.top] ∧ ∀ mode ∈ outer, mode.isOpaque = false := by
  obtain ⟨entries⟩ := modes
  cases entries with
  | nil => exact ⟨[], rfl, by simp⟩
  | cons top below =>
    -- the modes below, listed from the outermost one
    refine ⟨(ModeStack.mk below).toList, ModeStack.toList_push ⟨below⟩ top, ?_⟩
    intro mode hmode
    rcases List.mem_cons.mp hmode with rfl | hmode
    · rfl
    · exact h.below_free mode (List.mem_reverse.mp hmode)

end Extract

namespace Extractor

open Extract

variable {x : Extractor} {source : List Char} {origin : Nat} {s : State}

/-- A step keeps the discipline, since all that it does to modes and terminator is one shift. -/
theorem disciplined_step (h : Disciplined x s.modes s.terminator) (hrest : s.rest ≠ []) :
    Disciplined x (x.step s).modes (x.step s).terminator := by
  refine h.shift (acts_step x hrest ?_).shift
  intro htop hnone
  have hsome := h.isSome_iff.mpr htop
  rw [hnone] at hsome
  exact nomatch hsome

/-- The discipline holds in every state that is reached. -/
theorem Reaches.disciplined (h : x.Reaches source origin s) :
    Disciplined x s.modes s.terminator := by
  induction h with
  | start => exact ⟨by simp [State.start], by simp [State.start, ModeStack.top],
      by simp [State.start]⟩
  | step _ hrest _ ih => exact disciplined_step ih hrest
  | @skip s _ hstalls _ ih =>
    -- skipping a character is markup, whatever the mode
    have hmodes : ((x.step s).skip source).modes = (x.step s).modes := State.modes_markup _ 1
    have hterminator : ((x.step s).skip source).terminator = (x.step s).terminator :=
      State.terminator_markup _ 1
    rw [hmodes, hterminator]
    exact disciplined_step ih hstalls.1

/-- An ignored environment is read knowing how it ends. -/
theorem Reaches.terminator_ne_none (h : x.Reaches source origin s)
    (htop : s.modes.top = .ignoredEnvironment) : s.terminator ≠ none := by
  intro hnone
  have hsome := h.disciplined.isSome_iff.mpr htop
  rw [hnone] at hsome
  exact nomatch hsome

/-- A step from a state that is reached. -/
theorem Reaches.acts_step (h : x.Reaches source origin s) (hrest : s.rest ≠ []) :
    State.Acts x { s with mode := s.modes.top, trivial := false } (x.step s) :=
  Extractor.acts_step x hrest h.terminator_ne_none

/-- A step from a state that is reached reports nothing. -/
theorem Reaches.events_step (h : x.Reaches source origin s) (hrest : s.rest ≠ []) :
    (x.step s).events = s.events := by
  obtain ⟨calls, hrecords⟩ := (h.acts_step hrest).emits.exists_records
  exact hrecords.events_eq

/-- That the end of an ignored environment is not known is never reported. -/
theorem Reaches.no_missingTerminator (h : x.Reaches source origin s) :
    ∀ event ∈ s.events, ∀ place, event ≠ .missingTerminator place := by
  induction h with
  | start => simp [State.start]
  | step h hrest _ ih => rwa [h.events_step hrest]
  -- the skipped backslash adds an event of its own kind
  | @skip s h hstalls _ ih =>
    have hne : (x.step s).rest ≠ [] := by
      rw [rest_step_of_stalls hstalls]
      exact hstalls.1
    rw [(State.records_skip source hne).events_eq, h.events_step hstalls.1]
    intro event hevent place
    rcases List.mem_cons.mp hevent with rfl | hevent
    · exact nofun
    · exact ih event hevent place

/-- No extraction reports that the end of an ignored environment is not known. -/
theorem no_missingTerminator (x : Extractor) (source : String) (origin : Nat) :
    ∀ event ∈ (x.extract source origin).events, ∀ place, event ≠ .missingTerminator place := by
  unfold extract
  rcases x.run_cases source.toList origin with ⟨last, hlast, -, hrun⟩ | ⟨s, hs, hstalls, -, hrun⟩
  · rw [hrun]
    intro event hevent place
    rcases List.mem_append.mp hevent with hevent | hevent
    · exact hlast.no_missingTerminator event (List.mem_reverse.mp hevent) place
    · rw [List.mem_singleton.mp hevent]
      exact nofun
  · rw [hrun]
    intro event hevent place
    have hmem := List.mem_reverse.mp hevent
    rw [hs.events_step hstalls.1] at hmem
    exact hs.no_missingTerminator event hmem place

/-- In every state that is reached, running prose is the outermost mode, and no mode but the
    innermost one is an ignored environment or a chunk of code, so that there is at most one of the
    two; a terminator is known exactly in an ignored environment, and there is a chunk of code only
    where the dialect has them.  So no extraction reports that it does not know how an ignored
    environment ends. -/
theorem modes_keep_discipline (x : Extractor) (source : String) (origin : Nat) :
    (∀ s, x.Reaches source.toList origin s →
      s.modes.toList.head? = some .paragraphText ∧
      (∃ outer, s.modes.toList = outer ++ [s.modes.top] ∧
        ∀ mode ∈ outer, mode ≠ .ignoredEnvironment ∧ mode ≠ .embeddedCodeChunk) ∧
      s.modes.toList.count .ignoredEnvironment + s.modes.toList.count .embeddedCodeChunk ≤ 1 ∧
      (s.terminator.isSome = true ↔ s.modes.top = .ignoredEnvironment) ∧
      (x.options.dialect = .latex → .embeddedCodeChunk ∉ s.modes.toList)) ∧
    ∀ event ∈ (x.extract source origin).events, ∀ place, event ≠ .missingTerminator place := by
  refine ⟨?_, x.no_missingTerminator source origin⟩
  intro s hs
  have hdisciplined := hs.disciplined
  obtain ⟨outer, houter, hfree⟩ := hdisciplined.exists_outer
  have hne : ∀ mode ∈ outer, mode ≠ .ignoredEnvironment ∧ mode ≠ .embeddedCodeChunk :=
    fun mode hmode => Mode.isOpaque_eq_false_iff.mp (hfree mode hmode)
  refine ⟨rfl, ⟨outer, houter, hne⟩, ?_, hdisciplined.isSome_iff, ?_⟩
  · have hignored : outer.count .ignoredEnvironment = 0 :=
      List.count_eq_zero.mpr fun hmem => (hne _ hmem).1 rfl
    have hchunk : outer.count .embeddedCodeChunk = 0 :=
      List.count_eq_zero.mpr fun hmem => (hne _ hmem).2 rfl
    -- so that only the innermost mode counts, and that is one of the two at most
    rw [houter, List.count_append, List.count_append, hignored, hchunk]
    generalize s.modes.top = top
    cases top <;> decide
  · intro hdialect hmem
    rcases List.mem_cons.mp hmem with hmem | hmem
    · exact nomatch hmem
    · exact hdisciplined.no_chunk hdialect (List.mem_reverse.mp hmem)

/-- Inside an environment that is never closed, after a stray brace. -/
theorem modes_keep_discipline_verbatim :
    ∃ source s, source = "\x7d\\begin\x7bverbatim\x7d\\end" ∧
      Extractor.builtin.Reaches source.toList 0 s ∧
      s.modes.toList = [.paragraphText, .ignoredEnvironment] ∧ s.terminator.isSome = true ∧
      ∀ event ∈ (Extractor.builtin.extract source 0).events, ∀ place,
        event ≠ .missingTerminator place := by
  obtain ⟨hreached, hevents⟩ :=
    modes_keep_discipline Extractor.builtin "\x7d\\begin\x7bverbatim\x7d\\end" 0
  have hbrace : Extractor.builtin.Reaches "\x7d\\begin\x7bverbatim\x7d\\end".toList 0
      (Extractor.builtin.step (.start "\x7d\\begin\x7bverbatim\x7d\\end".toList 0)) := by
    refine .step .start (by decide) ?_
    rw [stalls_iff_stuck]
    exact fun hstuck => absurd hstuck.1 (by decide)
  -- the second step opens the ignored environment, whose end never comes
  have hbegin := hbrace.step (by decide +kernel) (by
    rw [stalls_iff_stuck]
    exact fun hstuck => absurd hstuck.1 (by decide +kernel))
  have hmodes : (Extractor.builtin.step (Extractor.builtin.step
      (.start "\x7d\\begin\x7bverbatim\x7d\\end".toList 0))).modes = ⟨[.ignoredEnvironment]⟩ := by
    decide +kernel
  refine ⟨_, _, rfl, hbegin, by rw [hmodes]; rfl, ?_, hevents⟩
  exact (hreached _ hbegin).2.2.2.1.mpr (by rw [hmodes]; rfl)

end Extractor

end ProseLens
