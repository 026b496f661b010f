import ProseLens.Extract.Advance
import ProseLens.Settings

/-! # Running an extraction

An extraction steps until nothing is unread.  A step that consumes nothing is a stall: a strict
extraction ends there with a report, any other reports it, skips one character as markup and goes
on.  The unread text gets shorter in either case, so that every extraction ends. -/

namespace ProseLens

namespace Extract

/-- How an extraction ended. -/
inductive Ending where
  /-- All of the source was read. -/
  | finished (last : State)
  /-- Nothing was consumed at some point. -/
  | stalled (last : State) (stall : Stall)

/-- The last state of an extraction. -/
def Ending.last : Ending → State
  | finished last => last
  | stalled last _ => last

/-- Skips one character after a stall. -/
def State.skip (s : State) (source : List Char) : State :=
  (s.report (.skipped s.mode (s.stall source))).markup 1

/-- A skip reports the stall and records one character as markup that shows nothing. -/
theorem State.records_skip {s : State} (source : List Char) (h : s.rest ≠ []) :
    State.Records s (s.skip source) [.markup (String.ofList (s.rest.take 1)) ""]
      [.skipped s.mode (s.stall source)] := by
  have hreport : State.Records s (s.report (.skipped s.mode (s.stall source))) []
      [.skipped s.mode (s.stall source)] := ⟨rfl, rfl, rfl, rfl⟩
  exact hreport.trans (State.records_markup _ (s.take_ne_nil Nat.one_pos h))

/-- A skip gets on, so that a lenient extraction ends. -/
theorem State.length_rest_skip_lt (s : State) (source : List Char) (h : s.rest ≠ []) :
    (s.skip source).rest.length < s.rest.length :=
  (State.consumes_markup (s.report _) Nat.one_pos h).2

end Extract

/-- What an extraction gives. -/
structure Extraction where
  /-- The annotated text, or the report on a stall. -/
  result : Except Extract.Stall AnnotatedText
  /-- What was reported, in order. -/
  events : List Event

namespace Extractor

open Extract

/-- Steps on from a state until the extraction of `source` ends. -/
def runFrom (x : Extractor) (source : List Char) (s : State) : Ending :=
  if s.rest.isEmpty then .finished s
  else
    let before := s.position
    let next := x.step s
    if before < next.position then x.runFrom source next
    else if x.options.strict then .stalled next (next.stall source)
    else x.runFrom source (next.skip source)
termination_by s.rest.length
decreasing_by
  · next h => exact (x.advances_step s).length_lt h
  · next hrest h _ =>
    have heq := (x.advances_step s).rest_eq h
    have hne : (x.step s).rest ≠ [] := by
      rw [heq]
      simpa using hrest
    have := (x.step s).length_rest_skip_lt source hne
    rw [heq] at this
    exact this

/-- Runs the extraction of a source that starts at byte `origin` of its document. -/
def run (x : Extractor) (source : List Char) (origin : Nat) : Ending :=
  x.runFrom source (State.start source origin)

/-- Extracts the prose of a source that starts at byte `origin` of its document. -/
def extract (x : Extractor) (source : String) (origin : Nat) : Extraction :=
  match x.run source.toList origin with
  | .finished last =>
    let text := last.builder.build
    ⟨.ok text, last.events.reverse ++
      [.finished source.utf8ByteSize text.spans.length last.placeholders]⟩
  | .stalled last stall => ⟨.error stall, last.events.reverse⟩

/-- The extractor for some settings. -/
def ofSettings (settings : Settings) : Extractor :=
  ⟨settings.registry, settings.options⟩

/-- The extractor for the built-in signatures and the default options. -/
def builtin : Extractor := ⟨.builtin, {}⟩

end Extractor

end ProseLens
