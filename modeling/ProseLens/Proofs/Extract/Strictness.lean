import Mathlib.Data.List.Basic
import ProseLens.Proofs.Extract.Reachable

/-!
# Where an extraction stalls, and what strictness changes

The only thing that a step cannot read is a backslash at the very end of the source, and that only
in a mode in which a backslash begins a construct (`State.Stuck`).  So there is at most one stall,
one character before the end.

A strict and a lenient extraction of the same source therefore go the same way, up to the stall if
there is one.  There the strict one ends, and the lenient one has nothing left to do but to record
the backslash.

## Key results

- `stalls_iff_stuck`: where a step stalls
- `run_withStrict_cases`: how a strict and a lenient run of one source end
-/

namespace ProseLens

/-- The event reports that a character was skipped. -/
def Event.isSkip : Event → Bool
  | .skipped .. => true
  | _ => false

namespace Extractor

open Extract AnnotatedText

/-- The extractor with the same signatures and options, but as strict as said. -/
def withStrict (x : Extractor) (strict : Bool) : Extractor :=
  { x with options := { x.options with strict } }

/-- Strictness does not matter within a step. -/
@[simp] theorem step_withStrict (x : Extractor) (strict : Bool) (s : State) :
    (x.withStrict strict).step s = x.step s := rfl

/-- A step stalls exactly where a lone backslash is left to a mode that reads constructs. -/
theorem stalls_iff_stuck (x : Extractor) (s : State) : x.Stalls s ↔ s.Stuck := by
  constructor
  -- a step from anywhere else moves the position on
  · rintro ⟨hrest, hstays⟩
    by_contra hstuck
    exact hstays ((x.position_lt_step_iff s hrest).mpr hstuck)
  · intro hstuck
    have hrest : s.rest ≠ [] := by simp [hstuck.1]
    refine ⟨hrest, ?_⟩
    rw [x.position_lt_step_iff s hrest]
    exact not_not_intro hstuck

variable {x : Extractor} {source : List Char} {origin : Nat} {s : State}

/-- What a strict extraction comes by, any extraction comes by. -/
theorem Reaches.withStrict (h : (x.withStrict true).Reaches source origin s) (strict : Bool) :
    (x.withStrict strict).Reaches source origin s := by
  induction h with
  | start => exact .start
  | @step s _ hrest hmoves ih =>
    -- whether a step stalls is a matter of the state alone
    rw [stalls_iff_stuck] at hmoves
    have hstep := Reaches.step ih hrest (by rwa [stalls_iff_stuck])
    rwa [step_withStrict] at hstep ⊢
  | skip _ _ hlenient => exact nomatch hlenient

/-- A strict extraction skips nothing on its way. -/
theorem Reaches.filter_isSkip (h : (x.withStrict true).Reaches source origin s) :
    s.events.filter Event.isSkip = [] := by
  induction h with
  | start => rfl
  | @step s _ _ _ ih =>
    rw [step_withStrict]
    -- a step reports missing terminators and nothing else
    obtain ⟨calls, news, hrecords, hnews⟩ := x.advances_step s
    rw [hrecords.events_eq, List.filter_append, ih, List.append_nil, List.filter_eq_nil_iff]
    intro event hevent
    obtain ⟨place, rfl⟩ := hnews event hevent
    simp [Event.isSkip]
  | skip _ _ hlenient => exact nomatch hlenient

/-- A stuck extraction that skips records the backslash. -/
theorem records_skip_of_stuck (source : List Char) (h : s.Stuck) :
    State.Records (x.step s) ((x.step s).skip source) [.markup "\\" ""]
      [.skipped (x.step s).mode ((x.step s).stall source)] := by
  have hrest : (x.step s).rest = ['\\'] := (x.silent_step_of_stuck s h).rest_eq.trans h.1
  have hrecords := State.records_skip source (show (x.step s).rest ≠ [] by simp [hrest])
  rw [hrest] at hrecords
  exact hrecords

/-- A strict and a lenient run end in the same state, or the strict one is stuck where the lenient
    one ends after it has skipped the backslash. -/
theorem run_withStrict_cases (x : Extractor) (source : List Char) (origin : Nat) :
    (∃ last, (x.withStrict true).Reaches source origin last ∧
      ∀ strict, (x.withStrict strict).run source origin = .finished last) ∨
    (∃ s, (x.withStrict true).Reaches source origin s ∧ s.Stuck ∧
      (x.withStrict true).run source origin = .stalled (x.step s) ((x.step s).stall source) ∧
      (x.withStrict false).run source origin = .finished ((x.step s).skip source)) := by
  rcases (x.withStrict true).run_cases source origin with ⟨last, hlast, hrest, -⟩ |
    ⟨s, hs, hstalls, -, hrun⟩
  · left
    refine ⟨last, hlast, ?_⟩
    intro strict
    rw [run_eq_runFrom (hlast.withStrict strict), runFrom_of_end _ _ hrest]
  · right
    have hstuck : s.Stuck := (stalls_iff_stuck _ s).mp hstalls
    refine ⟨s, hs, hstuck, hrun, ?_⟩
    -- the backslash that is skipped was all that was left
    have hend : ((x.step s).skip source).rest = [] := by
      have hrest := (records_skip_of_stuck (x := x) source hstuck).rest_eq
      rw [(x.silent_step_of_stuck s hstuck).rest_eq, hstuck.1] at hrest
      simpa using hrest.symm
    have hstalls' : (x.withStrict false).Stalls s := (stalls_iff_stuck _ s).mpr hstuck
    rw [run_eq_runFrom (hs.withStrict false), runFrom_of_lenient _ _ hstalls' rfl, step_withStrict,
      runFrom_of_end _ _ hend]

/-- A stuck extraction stands one byte before the end of a source that ends in a backslash. -/
theorem Reaches.source_of_stuck (h : x.Reaches source origin s) (hstuck : s.Stuck) :
    source.getLast? = some '\\' ∧ s.position + 1 = Text.byteLength source := by
  obtain ⟨front, hsource, hposition⟩ := h.exists_append
  rw [hstuck.1] at hsource
  refine ⟨by simp [hsource], ?_⟩
  rw [hsource, Text.byteLength_append, hposition]
  rfl

/-- Something is unread exactly where the position is before the end. -/
theorem Reaches.rest_ne_nil_iff (h : x.Reaches source origin s) :
    s.rest ≠ [] ↔ s.position < Text.byteLength source := by
  obtain ⟨front, hsource, hposition⟩ := h.exists_append
  have hbytes := Text.length_le_byteLength s.rest
  -- what is in front of the position and what is left make up the source
  rw [hsource, Text.byteLength_append, hposition]
  constructor
  · intro hrest
    have hlength := List.length_pos_iff.mpr hrest
    omega
  · rintro hlt hrest
    rw [hrest, Text.byteLength_nil] at hlt
    omega

/-- What a strict and a lenient extraction of one source give. -/
theorem extract_withStrict_cases (x : Extractor) (source : String) (origin : Nat) :
    (∃ t events, events.filter Event.isSkip = [] ∧
      ∀ strict, (x.withStrict strict).extract source origin = ⟨.ok t, events⟩) ∨
    (∃ last stall mode t reports events, source.toList.getLast? = some '\\' ∧
      stall.position + 1 = source.utf8ByteSize ∧
      (x.withStrict true).run source.toList origin = .stalled last stall ∧
      t.spans = last.builder.build.spans ++ [.markup "\\" ""] ∧
      reports.filter Event.isSkip = [] ∧ events.filter Event.isSkip = [.skipped mode stall] ∧
      (x.withStrict true).extract source origin = ⟨.error stall, reports⟩ ∧
      (x.withStrict false).extract source origin = ⟨.ok t, events⟩) := by
  rcases x.run_withStrict_cases source.toList origin with ⟨last, hlast, hrun⟩ |
    ⟨s, hs, hstuck, hrun, hrun'⟩
  · left
    refine ⟨last.builder.build, last.events.reverse ++
      [.finished source.utf8ByteSize last.builder.build.spans.length last.placeholders], ?_, ?_⟩
    · rw [List.filter_append, List.filter_reverse, hlast.filter_isSkip]
      rfl
    · intro strict
      rw [extract, hrun strict]
  · right
    have hsilent := x.silent_step_of_stuck s hstuck
    -- the lenient run goes on by one skip, behind which nothing is left
    have hrecords := records_skip_of_stuck (x := x) source.toList hstuck
    obtain ⟨hlast, hposition⟩ := hs.source_of_stuck hstuck
    rw [Text.byteLength_toList] at hposition
    have hskips : (x.step s).events.filter Event.isSkip = [] := by
      rw [hsilent.events_eq, hs.filter_isSkip]
    refine ⟨x.step s, (x.step s).stall source.toList, (x.step s).mode,
      ((x.step s).skip source.toList).builder.build, (x.step s).events.reverse, _, hlast, ?_, hrun,
      ?_, ?_, ?_, by rw [extract, hrun], by rw [extract, hrun']⟩
    · show (x.step s).builder.sourceLength + 1 = _
      rw [hsilent.builder_eq]
      exact hposition
    · rw [hrecords.builder_eq]
      exact List.reverse_cons
    · rw [List.filter_reverse, hskips]
      rfl
    · rw [List.filter_append, List.filter_reverse, hrecords.events_eq, List.filter_append, hskips]
      rfl

/-- In every state that is reached before the end of the source, a step fails to move the position
    exactly where a lone backslash is left outside of ignored environments and chunks of code.  So a
    strict extraction has a result unless the source ends in a backslash.  It fails exactly where
    the lenient one reports that it skipped, which that does at most once; the report is about the
    last byte of the source, and the lenient result has one span more than the strict extraction had
    recorded, for the backslash.  Where both succeed, they succeed with the same result. -/
theorem stalls_only_at_final_backslash (x : Extractor) (source : String) (origin : Nat) :
    (∀ s, x.Reaches source.toList origin s → s.position < source.utf8ByteSize →
      (¬ s.position < (x.step s).position ↔
        s.rest = ['\\'] ∧ s.modes.top ≠ .ignoredEnvironment ∧
          s.modes.top ≠ .embeddedCodeChunk)) ∧
    (source.toList.getLast? ≠ some '\\' →
      ∃ t, ((x.withStrict true).extract source origin).result = .ok t) ∧
    ((∃ stall, ((x.withStrict true).extract source origin).result = .error stall) ↔
      ∃ event ∈ ((x.withStrict false).extract source origin).events, event.isSkip = true) ∧
    (∀ strict, ((x.withStrict strict).extract source origin).events.countP Event.isSkip ≤ 1) ∧
    (∀ stall, ((x.withStrict true).extract source origin).result = .error stall →
      stall.position + 1 = source.utf8ByteSize ∧
      ∃ last mode t, (x.withStrict true).run source.toList origin = .stalled last stall ∧
        .skipped mode stall ∈ ((x.withStrict false).extract source origin).events ∧
        ((x.withStrict false).extract source origin).result = .ok t ∧
        t.spans = last.builder.build.spans ++ [.markup "\\" ""]) ∧
    (∀ t, ((x.withStrict true).extract source origin).result = .ok t →
      ((x.withStrict false).extract source origin).result = .ok t) := by
  refine ⟨?_, ?_⟩
  · intro s hs hlt
    rw [← Text.byteLength_toList, ← hs.rest_ne_nil_iff] at hlt
    rw [x.position_lt_step_iff s hlt]
    exact not_not
  -- the rest is read off the two ways in which the extractions can end
  simp only [List.countP_eq_length_filter]
  rcases x.extract_withStrict_cases source origin with ⟨t, events, hskips, hextract⟩ |
    ⟨last, stall, mode, t, reports, events, hlast, hposition, hrun, hspans, hreports, hskips,
      hstrict, hlenient⟩
  · simp only [hextract]
    refine ⟨fun _ => ⟨t, rfl⟩, ⟨?_, ?_⟩, ?_, ?_, fun _ hresult => hresult⟩
    · rintro ⟨stall, herror⟩
      exact nomatch herror
    · rintro ⟨event, hevent, hskip⟩
      exact absurd hskip (List.filter_eq_nil_iff.mp hskips event hevent)
    · intro strict
      rw [hskips]
      exact Nat.zero_le 1
    · intro stall herror
      exact nomatch herror
  · have hmem : .skipped mode stall ∈ events := by
      have hmem : .skipped mode stall ∈ events.filter Event.isSkip := by simp [hskips]
      exact (List.mem_filter.mp hmem).1
    refine ⟨fun hne => absurd hlast hne, ⟨?_, ?_⟩, ?_, ?_, ?_⟩
    · rintro -
      exact ⟨.skipped mode stall, by rwa [hlenient], rfl⟩
    · rintro -
      exact ⟨stall, by rw [hstrict]⟩
    · intro strict
      cases strict with
      | false =>
        rw [hlenient, hskips]
        exact Nat.le_refl 1
      | true =>
        rw [hstrict, hreports]
        exact Nat.zero_le 1
    · intro stall' herror
      rw [hstrict] at herror
      obtain rfl := Except.error.inj herror
      exact ⟨hposition, last, mode, t, hrun, by rwa [hlenient], by rw [hlenient], hspans⟩
    · intro t' hresult
      rw [hstrict] at hresult
      exact nomatch hresult

/-- A formula that is not closed before the final backslash. -/
theorem stalls_only_at_final_backslash_formula :
    ∃ x source last stall t, x = Extractor.builtin ∧ source = "Caf\u00e9 $x\\" ∧
      (x.withStrict true).run source.toList 0 = .stalled last stall ∧
      stall.position = 8 ∧
      ((x.withStrict false).extract source 0).result = .ok t ∧
      t.spans = last.builder.build.spans ++ [.markup "\\" ""] := by
  obtain ⟨-, -, hiff, -, herror, -⟩ :=
    stalls_only_at_final_backslash Extractor.builtin "Caf\u00e9 $x\\" 0
  have hskip : ∃ event ∈ ((Extractor.builtin.withStrict false).extract "Caf\u00e9 $x\\" 0).events,
      event.isSkip = true := by decide +kernel
  obtain ⟨stall, hstall⟩ := hiff.mpr hskip
  obtain ⟨hposition, last, mode, t, hrun, -, hresult, hspans⟩ := herror stall hstall
  have hsize : "Caf\u00e9 $x\\".utf8ByteSize = 9 := by decide +kernel
  exact ⟨_, _, last, stall, t, rfl, rfl, hrun, by omega, hresult, hspans⟩

end Extractor

end ProseLens
