import ProseLens.Proofs.Extract.Fields
import ProseLens.Proofs.Extract.Strictness

/-!
# Stretches of an extraction

`Leads` is the part of an extraction between two states, without a stall on the way.  It is what
statements about single constructs are put together to: each construct leads to a state from which
the next one goes on, and a stretch that begins in a state that is reached ends in such a state.
-/

namespace ProseLens.Extractor

open Extract

/-- The extraction goes from one state to another without a stall. -/
inductive Leads (x : Extractor) : State → State → Prop where
  | refl (s : State) : x.Leads s s
  | step {s t : State} (hrest : s.rest ≠ []) (hstuck : ¬ s.Stuck) (h : x.Leads (x.step s) t) :
      x.Leads s t

variable {x : Extractor} {source : List Char} {origin : Nat} {s t u : State}

/-- Steps follow each other. -/
theorem Leads.trans (h : x.Leads s t) (h' : x.Leads t u) : x.Leads s u := by
  induction h with
  | refl => exact h'
  | step hrest hstuck _ ih => exact .step hrest hstuck (ih h')

/-- A step that is not stuck is one of a run. -/
theorem leads_step (hrest : s.rest ≠ []) (hstuck : ¬ s.Stuck) : x.Leads s (x.step s) :=
  .step hrest hstuck (.refl _)

/-- Along a run the unread text never gets longer. -/
theorem Leads.length_le (h : x.Leads s t) : t.rest.length ≤ s.rest.length := by
  induction h with
  | refl => exact Nat.le_refl _
  | @step s _ _ _ _ ih =>
    have hstep := (x.advances_step s).length_le
    omega

/-- Of two states on the way, the one with less to read comes later. -/
theorem Leads.later (h : x.Leads s t) (h' : x.Leads s u) (hlt : u.rest.length < t.rest.length) :
    x.Leads t u := by
  induction h with
  | refl => exact h'
  | @step s _ hrest hstuck h ih =>
    have hstep := (x.advances_step s).length_le
    cases h' with
    | refl =>
      -- nothing before `t` has less to read
      have hle := h.length_le
      omega
    | step _ _ h' => exact ih h' hlt

/-- What lies inside a construct is not where anything begins. -/
theorem Leads.not_inside (h : x.Leads s t) {cs : List Char} (hbefore : cs.length < t.rest.length)
    (hafter : (x.step t).rest.length < cs.length) : ¬ ∃ u, x.Leads s u ∧ u.rest = cs := by
  intro ⟨u, hu, hrest⟩
  -- `u` is `t`, which has more left, or comes behind its step, which has less left
  cases h.later hu (by rw [hrest]; exact hbefore) with
  | refl =>
    rw [hrest] at hbefore
    omega
  | step _ _ hlater =>
    have hle := hlater.length_le
    rw [hrest] at hle
    omega

/-- Whatever is led to from a state that is reached is reached as well. -/
theorem Reaches.leads (h : x.Reaches source origin s) (h' : x.Leads s t) :
    x.Reaches source origin t := by
  induction h' with
  | refl => exact h
  | step hrest hstuck _ ih => exact ih (.step h hrest (by rwa [stalls_iff_stuck]))

/-- Without a backslash at its end a source is extracted without a stall. -/
theorem Reaches.leads_start (h : x.Reaches source origin s) (hlast : source.getLast? ≠ some '\\') :
    x.Leads (.start source origin) s := by
  induction h with
  | start => exact .refl _
  | @step s h hrest hmoves ih =>
    exact ih.trans (leads_step hrest (by rwa [stalls_iff_stuck] at hmoves))
  | skip h hstalls _ _ =>
    exact absurd (h.source_of_stuck ((stalls_iff_stuck _ _).mp hstalls)).1 hlast

/-- The first step leads on unless there is nothing to read, or a backslash alone. -/
theorem reaches_first_step (hne : source ≠ []) (hlone : source ≠ ['\\']) :
    x.Reaches source origin (x.step (.start source origin)) := by
  apply Reaches.step .start hne
  rw [stalls_iff_stuck]
  exact fun hstuck => hlone hstuck.1

/-- An extraction ends with the state in which it has read everything. -/
theorem Reaches.run_eq_finished (h : x.Reaches source origin s) (hrest : s.rest = []) :
    x.run source origin = .finished s := by
  rw [run_eq_runFrom h, x.runFrom_of_end source hrest]

/-! ## The beginning and the end of a step -/

/-- The state in which the construct at the reading position of `s` begins. -/
def begun (s : State) : State := { s with mode := s.modes.top, trivial := false }

/-- A step is the construct at the reading position, and what is remembered after it. -/
theorem step_eq_settle {c : Char} {cs : List Char} (hrest : s.rest = c :: cs) :
    x.step s = settle (x.construct (begun s) c) :=
  x.step_of_cons s hrest

section Settle

variable (s : State)

@[simp] theorem mode_begun : (begun s).mode = s.modes.top := rfl

@[simp] theorem rest_begun : (begun s).rest = s.rest := rfl

@[simp] theorem modes_begun : (begun s).modes = s.modes := rfl

/-- Settling leaves the unread text. -/
@[simp] theorem rest_settle : (settle s).rest = s.rest := by
  unfold settle
  split <;> rfl

/-- Settling leaves what is recorded. -/
@[simp] theorem builder_settle : (settle s).builder = s.builder := by
  unfold settle
  split <;> rfl

/-- Settling leaves the modes. -/
@[simp] theorem modes_settle : (settle s).modes = s.modes := by
  unfold settle
  split <;> rfl

/-- Settling uses up no placeholder. -/
@[simp] theorem placeholders_settle : (settle s).placeholders = s.placeholders := by
  unfold settle
  split <;> rfl

/-- Settling leaves the terminator. -/
@[simp] theorem terminator_settle : (settle s).terminator = s.terminator := by
  unfold settle
  split <;> rfl

end Settle

end ProseLens.Extractor
