import ProseLens.Extract.State

/-! # Placeholders of an extraction

The text that stands for a construct which has just ended.  It depends on the mode in which the
construct ended: in prose it is the placeholder word alone, in a formula the word takes over the
punctuation and the space that waited for it, a formula on lines of its own is set off by spaces,
and a formula that has shown nothing has no word. -/

namespace ProseLens.Extract

namespace State

/-- The next placeholder word. -/
def word (s : State) (language : String) (p : Placeholder) (leadsWithVowel : Bool) : String :=
  p.word language s.placeholders leadsWithVowel

/-- The punctuation that waits, as text. -/
def pendingPunctuation (s : State) : String :=
  match s.pending.punctuation with
  | some c => c.toString
  | none => ""

/-- Whether the construct that has just ended leaves a placeholder word. -/
def hasWord (s : State) : Bool := s.mode.isText || !s.formula.empty

/-- The text that stands for the construct that has just ended. -/
def standIn (s : State) (language : String) (p : Placeholder) : String :=
  let vowel := s.formula.lead == .vowel
  let before := if s.trailing.space then "" else " "
  if s.mode.isText then s.word language p vowel
  else if s.formula.empty then
    if s.mode == .displayMath then before else ""
  else if s.mode == .displayMath then
    let after := if s.modes.top != .inlineText || s.pending.space then " " else ""
    before ++ s.word language p false ++ s.pendingPunctuation ++ after
  else
    let after := if s.pending.space then " " else ""
    s.word language p vowel ++ s.pendingPunctuation ++ after

/-- The state after the placeholder has been formed: its number is used up and nothing waits. -/
def afterStandIn (s : State) : State :=
  { s with
    placeholders := if s.hasWord then s.placeholders + 1 else s.placeholders
    pending := s.pending.clear
    formula := { s.formula with lead := .undecided } }

/-- The next `n` characters end a construct, for which a placeholder stands. -/
def replace (s : State) (n : Nat) (language : String) (p : Placeholder) : State :=
  s.afterStandIn.markupAs n (s.standIn language p)

end State

end ProseLens.Extract
