import ProseLens.Signature.Argument
import ProseLens.Token.Blank

/-! # Matching signatures

A command signature matches a text that begins with its name and goes on with all of its arguments;
a comment before an argument is skipped, blanks are not.  Among several signatures `longest?`
chooses the one that takes the most of the text.  Ties go to a signature that ignores all
arguments, and then to the later one, so that what is added overrides what was there. -/

namespace ProseLens.Signature

/-- The number of characters of the given arguments, with the comments between them. -/
def argumentsLength? : List Delimiter → List Char → Option Nat
  | [], _ => some 0
  | kind :: kinds, cs =>
    let skipped := Token.commentLength cs
    match argument? kind (cs.drop skipped) with
    | none => none
    | some n => (argumentsLength? kinds (cs.drop (skipped + n))).map (skipped + n + ·)

/-- The number of characters that the signature takes at the start of a text. -/
def Command.length? (signature : Command) (cs : List Char) : Option Nat :=
  match Text.stripFront? signature.name.toList cs with
  | none => none
  | some rest =>
    (argumentsLength? signature.arguments rest).map (signature.name.length + ·)

/-- The byte offset where the signature ends if it matches at byte `offset` of `source`. -/
def Command.matchEnd? (signature : Command) (source : String) (offset : Nat) : Option Nat :=
  (Text.measureAt? signature.length? source offset).map (offset + ·)

/-- A signature that matched, with the number of characters it takes. -/
structure Match (α : Type) where
  /-- The signature. -/
  signature : α
  /-- The number of characters it takes. -/
  length : Nat
  deriving Repr

/-- Whether a match is preferred to an earlier one. -/
def Match.overrides {α : Type} (ignoresAll : α → Bool) (later earlier : Match α) : Bool :=
  earlier.length < later.length ||
    (later.length == earlier.length &&
      (ignoresAll later.signature || !ignoresAll earlier.signature))

/-- The best of the candidates at the start of a text, given the command that each stands for and
    whether it ignores all arguments. -/
def longest? {α : Type} (command : α → Command) (ignoresAll : α → Bool) (candidates : List α)
    (cs : List Char) : Option (Match α) :=
  candidates.foldl (fun best candidate =>
    match (command candidate).length? cs, best with
    | none, best => best
    | some n, none => some ⟨candidate, n⟩
    | some n, some earlier =>
      if Match.overrides ignoresAll ⟨candidate, n⟩ earlier then some ⟨candidate, n⟩
      else some earlier) none

/-- A signature takes at least its name. -/
theorem Command.length_name_le {signature : Command} {cs : List Char} {n : Nat}
    (h : signature.length? cs = some n) : signature.name.length ≤ n := by
  unfold length? at h
  split at h
  · cases h
  · obtain ⟨m, -, rfl⟩ := Option.map_eq_some_iff.mp h
    omega

/-- The best of the candidates is one of them, and it matches. -/
theorem mem_of_longest?_eq_some {α : Type} {command : α → Command} {ignoresAll : α → Bool}
    {candidates : List α} {cs : List Char} {best : Match α}
    (h : longest? command ignoresAll candidates cs = some best) :
    best.signature ∈ candidates ∧ (command best.signature).length? cs = some best.length := by
  refine List.foldlRecOn candidates _ (motive := fun found => ∀ best, found = some best →
    best.signature ∈ candidates ∧ (command best.signature).length? cs = some best.length)
    (by simp) ?_ best h
  -- each round keeps the match it has or takes the candidate's own
  intro found ih candidate hmem best hbest
  split at hbest
  · exact ih best hbest
  · next n hn =>
    obtain rfl := Option.some.inj hbest
    exact ⟨hmem, hn⟩
  · next n earlier hn =>
    split at hbest
    · obtain rfl := Option.some.inj hbest
      exact ⟨hmem, hn⟩
    · exact ih best hbest

/-- A match with the byte range that it takes. -/
structure Located (α : Type) where
  /-- The signature. -/
  signature : α
  /-- Where the match begins. -/
  start : Nat
  /-- Where the match ends. -/
  stop : Nat
  deriving Repr

/-- Number of bytes that the match takes. -/
def Located.length {α : Type} (m : Located α) : Nat := m.stop - m.start

/-- The best of the candidates at byte `offset` of `source`. -/
def longestAt? {α : Type} (command : α → Command) (ignoresAll : α → Bool) (candidates : List α)
    (source : String) (offset : Nat) : Option (Located α) := do
  let cs ← Text.dropBytes? source.toList offset
  let best ← longest? command ignoresAll candidates cs
  return ⟨best.signature, offset, offset + Text.byteLength (cs.take best.length)⟩

end ProseLens.Signature
