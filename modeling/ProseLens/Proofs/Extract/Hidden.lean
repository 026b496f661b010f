import ProseLens.Proofs.Extract.Leads

/-!
# What is hidden

The body of an ignored environment and a chunk of code are read for their end only.  Whatever stands
in them is passed over one character at a time, until the first place where the end stands, and
leaves no trace.

Both kinds are treated at once: a state `Hides` what is unread until a recognizer of characters
finds the end.  One step of such a state passes a character or the end (`Hides.pass`, `Hides.close`)
and by induction on what lies before the end a stretch of them passes it all (`Hides.leads_end`,
`Hides.leads_all`).

## Key results

- `Terminator.Stands`: where an ignored environment ends
- `Hides.leads_end`: what is hidden is passed over up to its first end
- `Hides.leads_all`: without an end all the rest is passed over
-/

namespace ProseLens

namespace Extract

namespace Terminator

/-- The command that ends the environment. -/
def command : Terminator → List Char
  | braced name => "\\end\x7b".toList ++ name ++ ['}']
  | attached name => "\\stop".toList ++ name

/-- A terminator is written with some command. -/
theorem command_ne_nil (terminator : Terminator) : terminator.command ≠ [] := by
  cases terminator <;> exact List.cons_ne_nil _ _

/-- What may follow the command: no letter if the name is attached to it. -/
def Precedes : Terminator → List Char → Prop
  | braced _, _ => True
  | attached _, after => after.head?.any Char.isAlpha = false

instance (terminator : Terminator) (after : List Char) : Decidable (terminator.Precedes after) :=
  match terminator with
  | braced _ => inferInstanceAs (Decidable True)
  | attached _ => inferInstanceAs (Decidable (_ = _))

/-- A text begins with the terminator. -/
def Stands (terminator : Terminator) (cs : List Char) : Prop :=
  ∃ after, cs = terminator.command ++ after ∧ terminator.Precedes after

/-- The command of a terminator is found where it stands, if it may end there. -/
theorem length?_command_append {terminator : Terminator} {after : List Char}
    (h : terminator.Precedes after) :
    terminator.length? (terminator.command ++ after) = some terminator.command.length := by
  cases terminator with
  | braced name => exact if_pos (Text.startsWith_iff.mpr ⟨after, rfl⟩)
  | attached name =>
    unfold command length?
    dsimp only
    rw [Text.stripFront?_append]
    exact if_neg (by simpa [Precedes] using h)

/-- A terminator is found only where its command stands and may end. -/
theorem stands_of_length? {terminator : Terminator} {cs : List Char} {n : Nat}
    (h : terminator.length? cs = some n) : terminator.Stands cs := by
  cases terminator with
  | braced name =>
    simp only [length?] at h
    split at h
    · next hstarts =>
      obtain ⟨after, hafter⟩ := Text.startsWith_iff.mp hstarts
      exact ⟨after, hafter, trivial⟩
    · cases h
  -- an attached name must not go on
  | attached name =>
    simp only [length?] at h
    split at h
    · cases h
    · next after hafter =>
      split at h
      · cases h
      · next hletter =>
        exact ⟨after, Text.stripFront?_eq_some_iff.mp hafter, by simpa [Precedes] using hletter⟩

/-- Where its command does not stand, no terminator is found. -/
theorem length?_eq_none {terminator : Terminator} {cs : List Char}
    (h : ¬ terminator.Stands cs) : terminator.length? cs = none := by
  cases hlength : terminator.length? cs with
  | none => rfl
  | some n => exact absurd (stands_of_length? hlength) h

instance (terminator : Terminator) (cs : List Char) : Decidable (terminator.Stands cs) :=
  match h : terminator.length? cs with
  | some _ => isTrue (stands_of_length? h)
  | none => isFalse fun ⟨_, hcs, hprecedes⟩ => by
      rw [hcs, length?_command_append hprecedes] at h
      cases h

end Terminator

/-- The end of a chunk of code. -/
def chunkEnd? : List Char → Option Nat
  | '@' :: _ => some 1
  | _ => none

/-- A chunk of code ends with an at sign. -/
theorem exists_of_chunkEnd? {cs : List Char} {n : Nat} (h : chunkEnd? cs = some n) :
    n = 1 ∧ ∃ rest, cs = '@' :: rest := by
  unfold chunkEnd? at h
  split at h
  · next rest => exact ⟨(Option.some.inj h).symm, rest, rfl⟩
  · cases h

/-- Everything that is unread from `s` on is hidden, until `end?` finds the end. -/
inductive State.Hides (s : State) : (end? : List Char → Option Nat) → Prop where
  | environment {terminator : Terminator} (htop : s.modes.top = .ignoredEnvironment)
      (hterminator : s.terminator = some terminator) : s.Hides terminator.length?
  | chunk (htop : s.modes.top = .embeddedCodeChunk) : s.Hides chunkEnd?

/-- Nothing was added to the plain text between `s` and `t`. -/
structure State.Agrees (s t : State) : Prop where
  plain_eq : t.builder.plain = s.builder.plain
  placeholders_eq : t.placeholders = s.placeholders
  trailing_eq : t.trailing = s.trailing

namespace State

variable {s t u : State}

/-- States that agree with an earlier one and with each other show the same. -/
theorem Agrees.trans (h : Agrees s t) (h' : Agrees t u) : Agrees s u :=
  ⟨h'.plain_eq.trans h.plain_eq, h'.placeholders_eq.trans h.placeholders_eq,
    h'.trailing_eq.trans h.trailing_eq⟩

/-- Markup that shows nothing does not change what is shown. -/
theorem Agrees.markup (h : Agrees s t) (n : Nat) : Agrees s (t.markup n) :=
  h.trans ⟨t.plain_markup n, t.placeholders_markup n, t.trailing_markup n⟩

/-- Settling does not change what is shown. -/
theorem Agrees.settle (h : Agrees s t) : Agrees s (Extractor.settle t) := by
  unfold Extractor.settle
  split
  · exact h
  · exact ⟨h.plain_eq, h.placeholders_eq, h.trailing_eq⟩

end State

end Extract

namespace Extractor

open Extract State

variable {x : Extractor} {s : State} {end? : List Char → Option Nat}

/-! ## Steps through what is hidden -/

/-- In an ignored environment a step looks for the closing tag only. -/
theorem step_ignored (htop : s.modes.top = .ignoredEnvironment) (hrest : s.rest ≠ []) :
    x.step s = settle (ignored (begun s)) := by
  obtain ⟨c, cs, hcons⟩ := List.exists_cons_of_ne_nil hrest
  rw [step_eq_settle hcons]
  unfold construct
  rw [mode_begun, htop]

/-- In a chunk of code a step looks for the at sign only. -/
theorem step_codeChunk (htop : s.modes.top = .embeddedCodeChunk) {c : Char} {cs : List Char}
    (hrest : s.rest = c :: cs) : x.step s = settle (codeChunk (begun s) c) := by
  rw [step_eq_settle hrest]
  unfold construct
  rw [mode_begun, htop]

/-- At the end of what is hidden the end is markup, in the mode around it. -/
theorem Hides.step_of_some (h : s.Hides end?) (hrest : s.rest ≠ []) {n : Nat}
    (hend : end? s.rest = some n) :
    x.step s = settle ({ (begun s).pop with
      terminator := if s.modes.top = Mode.ignoredEnvironment then none
        else s.terminator }.markup n) := by
  cases h with
  | @environment terminator htop hterminator =>
    have hknown : (begun s).terminator = some terminator := hterminator
    -- the terminator is looked for in what is unread
    have hfound : terminator.length? (begun s).rest = some n := hend
    rw [step_ignored htop hrest, ignored, hknown, if_pos htop]
    dsimp only
    rw [hfound]
  | chunk htop =>
    obtain ⟨rfl, cs, hcons⟩ := exists_of_chunkEnd? hend
    rw [step_codeChunk htop hcons, codeChunk, if_pos rfl, if_neg (by simp [htop])]
    rfl

/-- Before the end the step is markup of one character, whatever the character is. -/
theorem Hides.step_of_none (h : s.Hides end?) (hrest : s.rest ≠ []) (hend : end? s.rest = none) :
    x.step s = settle ((begun s).markup 1) := by
  cases h with
  | @environment terminator htop hterminator =>
    have hknown : (begun s).terminator = some terminator := hterminator
    have hmissing : terminator.length? (begun s).rest = none := hend
    rw [step_ignored htop hrest, ignored, hknown]
    dsimp only
    rw [hmissing]
  | chunk htop =>
    obtain ⟨c, cs, hcons⟩ := List.exists_cons_of_ne_nil hrest
    -- an at sign would end the chunk
    have hat : c ≠ '@' := by
      rintro rfl
      rw [hcons] at hend
      cases hend
    rw [step_codeChunk htop hcons, codeChunk, if_neg hat]

/-- A step at the end of what is hidden: the mode around it goes on. -/
theorem Hides.close (h : s.Hides end?) (hrest : s.rest ≠ []) {n : Nat}
    (hend : end? s.rest = some n) :
    (x.step s).rest = s.rest.drop n ∧ (x.step s).modes = s.modes.pop ∧ Agrees s (x.step s) := by
  rw [Hides.step_of_some h hrest hend, rest_settle, modes_settle, rest_markup, modes_markup]
  refine ⟨rfl, rfl, .settle (.markup ?_ n)⟩
  exact ⟨rfl, rfl, rfl⟩

/-- A step before the end of what is hidden passes a character over. -/
theorem Hides.pass (h : s.Hides end?) (hrest : s.rest ≠ []) (hend : end? s.rest = none) :
    (x.step s).Hides end? ∧ (x.step s).rest = s.rest.drop 1 ∧ (x.step s).modes = s.modes ∧
      Agrees s (x.step s) := by
  have hstep : x.step s = settle ((begun s).markup 1) := Hides.step_of_none h hrest hend
  have hmodes : (x.step s).modes = s.modes := by
    rw [hstep, modes_settle, modes_markup, modes_begun]
  have hterminator : (x.step s).terminator = s.terminator := by
    rw [hstep, terminator_settle, terminator_markup]
    rfl
  refine ⟨?_, ?_, hmodes, ?_⟩
  -- the two kinds of hidden text stay what they are
  · cases h with
    | environment htop hknown => exact .environment (hmodes ▸ htop) (hterminator.trans hknown)
    | chunk htop => exact .chunk (hmodes ▸ htop)
  · rw [hstep, rest_settle, rest_markup, rest_begun]
  · rw [hstep]
    refine .settle (.markup ?_ 1)
    exact ⟨rfl, rfl, rfl⟩

/-- Inside of hidden text a step is never stuck, since a lone backslash is taken as it is. -/
theorem Hides.leads_step (h : s.Hides end?) (hrest : s.rest ≠ []) : x.Leads s (x.step s) := by
  refine Extractor.leads_step hrest ?_
  rintro ⟨-, hignored, hchunk⟩
  cases h with
  | environment htop => exact hignored htop
  | chunk htop => exact hchunk htop

/-! ## Stretches that are hidden -/

/-- What is hidden is passed over up to the first place where the end stands, and the mode around it
    goes on after that. -/
theorem Hides.leads_end {body : List Char} {n : Nat} {cs : List Char} (h : s.Hides end?)
    (hrest : s.rest = body ++ cs) (hcs : cs ≠ []) (hend : end? cs = some n)
    (hfirst : ∀ back, back ≠ [] → back <:+ body → end? (back ++ cs) = none) :
    ∃ t, x.Leads s t ∧ t.rest = cs.drop n ∧ t.modes = s.modes.pop ∧ Agrees s t := by
  -- by induction on what lies before the end; the state stays one that hides the rest
  induction body generalizing s with
  | nil =>
    have hrest' : s.rest = cs := hrest
    rw [← hrest'] at hcs hend ⊢
    exact ⟨x.step s, Hides.leads_step h hcs, Hides.close h hcs hend⟩
  | cons c body ih =>
    have hne : s.rest ≠ [] := by simp [hrest]
    have hnone : end? s.rest = none := by
      rw [hrest]
      exact hfirst (c :: body) (by simp) (List.suffix_refl _)
    obtain ⟨hhides, hdrop, hmodes, hagrees⟩ := Hides.pass (x := x) h hne hnone
    rw [hrest] at hdrop
    obtain ⟨t, hleads, hrest', hmodes', hagrees'⟩ := ih hhides hdrop fun back hback hsuffix =>
      hfirst back hback (hsuffix.trans (List.suffix_cons c body))
    exact ⟨t, .trans (Hides.leads_step h hne) hleads, hrest', by rw [hmodes', hmodes],
      hagrees.trans hagrees'⟩

/-- Where the end stands nowhere, all the rest is passed over. -/
theorem Hides.leads_all {cs : List Char} (h : s.Hides end?) (hrest : s.rest = cs)
    (hnever : ∀ back, back ≠ [] → back <:+ cs → end? back = none) :
    ∃ t, x.Leads s t ∧ t.rest = [] ∧ Agrees s t := by
  induction cs generalizing s with
  | nil => exact ⟨s, .refl s, hrest, ⟨rfl, rfl, rfl⟩⟩
  | cons c cs ih =>
    have hne : s.rest ≠ [] := by simp [hrest]
    -- what is left is a suffix of `cs` again, so that the terminator is not found here either
    have hnone : end? s.rest = none := by
      rw [hrest]
      exact hnever (c :: cs) (by simp) (List.suffix_refl _)
    obtain ⟨hhides, hdrop, -, hagrees⟩ := Hides.pass (x := x) h hne hnone
    rw [hrest] at hdrop
    obtain ⟨t, hleads, hrest', hagrees'⟩ := ih hhides hdrop fun back hback hsuffix =>
      hnever back hback (hsuffix.trans (List.suffix_cons c cs))
    exact ⟨t, .trans (Hides.leads_step h hne) hleads, hrest', hagrees.trans hagrees'⟩

end Extractor

end ProseLens
