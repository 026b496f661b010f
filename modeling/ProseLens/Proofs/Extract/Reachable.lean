import ProseLens.Extract.Run

/-!
# What an extraction comes by

`Reaches` follows the loop of an extraction: one constructor for an iteration that moves the
position, and one for an iteration that stalls and skips.  A strict extraction has no iteration of
the second kind, it ends there.

Whatever is reached has been recorded up to the reading position, and the source is what was
recorded followed by what is unread.  Everything that is said about positions rests on that.

## Key results

- `run_eq_runFrom`: a run goes through everything that is reached
- `run_cases`: how a run ends
- `Reaches.records`: what is reached has recorded the source up to the reading position
-/

namespace ProseLens.Extractor

open Extract AnnotatedText

/-- There is something to read, and a step does not move the position. -/
def Stalls (x : Extractor) (s : State) : Prop :=
  s.rest ≠ [] ∧ ¬ s.position < (x.step s).position

/-- The extraction of `source` by `x` comes by the state `s` between two iterations. -/
inductive Reaches (x : Extractor) (source : List Char) (origin : Nat) : State → Prop where
  | start : x.Reaches source origin (State.start source origin)
  | step {s : State} (h : x.Reaches source origin s) (hrest : s.rest ≠ [])
      (hmoves : ¬ x.Stalls s) : x.Reaches source origin (x.step s)
  | skip {s : State} (h : x.Reaches source origin s) (hstalls : x.Stalls s)
      (hlenient : x.options.strict = false) : x.Reaches source origin ((x.step s).skip source)

section Iterations

variable (x : Extractor) (source : List Char) {s : State}

/-- A step that does not stall moves the position. -/
theorem position_lt_of_not_stalls (hrest : s.rest ≠ []) (h : ¬ x.Stalls s) :
    s.position < (x.step s).position :=
  Decidable.byContradiction fun hstays => h ⟨hrest, hstays⟩

/-- A run ends with the source. -/
theorem runFrom_of_end (h : s.rest = []) : x.runFrom source s = .finished s := by
  rw [runFrom, if_pos (by simp [h])]

/-- A run goes on after a step that moves the position. -/
theorem runFrom_of_moves (hrest : s.rest ≠ []) (hmoves : ¬ x.Stalls s) :
    x.runFrom source s = x.runFrom source (x.step s) := by
  rw [runFrom, if_neg (by simpa using hrest)]
  exact if_pos (x.position_lt_of_not_stalls hrest hmoves)

/-- A strict run ends with the first stall. -/
theorem runFrom_of_strict (hstalls : x.Stalls s) (hstrict : x.options.strict = true) :
    x.runFrom source s = .stalled (x.step s) ((x.step s).stall source) := by
  rw [runFrom, if_neg (by simpa using hstalls.1)]
  dsimp only
  rw [if_neg hstalls.2, if_pos hstrict]

/-- A lenient run skips a character at a stall and goes on. -/
theorem runFrom_of_lenient (hstalls : x.Stalls s) (hlenient : x.options.strict = false) :
    x.runFrom source s = x.runFrom source ((x.step s).skip source) := by
  rw [runFrom, if_neg (by simpa using hstalls.1)]
  dsimp only
  rw [if_neg hstalls.2, if_neg (by simp [hlenient])]

end Iterations

variable {x : Extractor} {source : List Char} {origin : Nat} {s : State}

/-- A run goes through everything that is reached. -/
theorem run_eq_runFrom (h : x.Reaches source origin s) :
    x.run source origin = x.runFrom source s := by
  induction h with
  | start => rfl
  | step _ hrest hmoves ih => rw [ih, x.runFrom_of_moves source hrest hmoves]
  | skip _ hstalls hlenient ih => rw [ih, x.runFrom_of_lenient source hstalls hlenient]

/-- From whatever is reached, the end of the source is reached or a strict extraction stalls. -/
theorem Reaches.exists_end (h : x.Reaches source origin s) :
    (∃ last, x.Reaches source origin last ∧ last.rest = []) ∨
    (∃ s, x.Reaches source origin s ∧ x.Stalls s ∧ x.options.strict = true) := by
  -- the recursion of the run, with what is reached as its invariant
  fun_induction x.runFrom source s with
  | case1 s hrest =>
    left
    exact ⟨s, h, by simpa using hrest⟩
  | case2 s hrest before next hmoves ih =>
    exact ih (.step h (by simpa using hrest) fun hstalls => hstalls.2 hmoves)
  | case3 s hrest before next hstays hstrict =>
    right
    exact ⟨s, h, ⟨by simpa using hrest, hstays⟩, hstrict⟩
  | case4 s hrest before next hstays hlenient ih =>
    exact ih (.skip h ⟨by simpa using hrest, hstays⟩ (by simpa using hlenient))

/-- A run ends where all is read, or it is strict and ends where a step stalls. -/
theorem run_cases (x : Extractor) (source : List Char) (origin : Nat) :
    (∃ last, x.Reaches source origin last ∧ last.rest = [] ∧
      x.run source origin = .finished last) ∨
    (∃ s, x.Reaches source origin s ∧ x.Stalls s ∧ x.options.strict = true ∧
      x.run source origin = .stalled (x.step s) ((x.step s).stall source)) := by
  have hstart : x.Reaches source origin (State.start source origin) := .start
  rcases hstart.exists_end with ⟨last, hlast, hrest⟩ | ⟨s, hs, hstalls, hstrict⟩
  · left
    refine ⟨last, hlast, hrest, ?_⟩
    rw [run_eq_runFrom hlast, x.runFrom_of_end source hrest]
  · right
    refine ⟨s, hs, hstalls, hstrict, ?_⟩
    rw [run_eq_runFrom hs, x.runFrom_of_strict source hstalls hstrict]

/-! ## What has been recorded -/

/-- Nothing is read by a step that stalls. -/
theorem rest_step_of_stalls (h : x.Stalls s) : (x.step s).rest = s.rest :=
  (x.advances_step s).rest_eq h.2

/-- The source up to the reading position has been recorded, call by call. -/
theorem Reaches.records (h : x.Reaches source origin s) :
    ∃ calls news, State.Records (State.start source origin) s calls news := by
  induction h with
  | start => exact ⟨[], [], rfl, rfl, rfl, rfl⟩
  | @step s _ _ _ ih =>
    obtain ⟨calls, news, hrecords⟩ := ih
    obtain ⟨calls', news', hstep, -⟩ := x.advances_step s
    exact ⟨_, _, hrecords.trans hstep⟩
  -- a skip records the rest behind what its step has recorded
  | @skip s _ hstalls _ ih =>
    obtain ⟨calls, news, hrecords⟩ := ih
    obtain ⟨calls', news', hstep, -⟩ := x.advances_step s
    have hne : (x.step s).rest ≠ [] := by
      rw [rest_step_of_stalls hstalls]
      exact hstalls.1
    exact ⟨_, _, (hrecords.trans hstep).trans (State.records_skip source hne)⟩

/-- The source is what lies before the reading position, followed by what is unread. -/
theorem Reaches.exists_append (h : x.Reaches source origin s) :
    ∃ front, source = front ++ s.rest ∧ Text.byteLength front = s.position := by
  obtain ⟨calls, news, hrecords⟩ := h.records
  refine ⟨Span.source calls, hrecords.rest_eq, ?_⟩
  rw [hrecords.position_eq]
  exact (Nat.zero_add _).symm

end ProseLens.Extractor
