import ProseLens.Proofs.Extract.Opening
import ProseLens.Proofs.Signature.Filing

/-!
# Where environments are looked up

An environment is filed under the text of its opening, and that text is what the extractor reads in
the source before it asks for signatures: the control sequence and the name in braces behind it.  So
the two ways to write an environment file it where it is found, whatever its name, and nothing that
is filed elsewhere matters where the environment is opened.

## Key results

- `asksUnder_openingName`: what the opening of an environment asks its signatures for
- `top_step_addEnvironment`: an environment that is filed there is found
- `prototypes_round_trip`: prototypes, what they are read as, and where that is filed
-/

namespace ProseLens

/-- An environment is filed under its opening and nowhere else. -/
theorem Signature.Registry.environments_addEnvironment (r : Registry) (e : Environment)
    (opening : String) : (r.addEnvironment e).environments opening =
      r.environments opening ++ if e.opening.name = opening then [e] else [] := by
  rw [addEnvironment_eq_extend, environments_extend, List.filter_cons, List.filter_nil]
  simp only [beq_iff_eq]

namespace Extractor

open Extract State Signature

/-- Of all that is filed, the step from this state depends on the environments with this opening
    only. -/
def AsksUnder (s : State) (opening : String) : Prop :=
  ∀ (r r' : Registry) (options : Options), r.environments opening = r'.environments opening →
    step ⟨r, options⟩ s = step ⟨r', options⟩ s

section Openings

variable {s : State} {name after : List Char} (hfree : s.modes.top.isOpaque = false)
  (hname : '}' ∉ name) (hrest : s.rest = "\\begin".toList ++ '{' :: (name ++ '}' :: after))
include hfree hname hrest

/-- The opening of an environment is looked up as it stands in the source. -/
theorem asksUnder_openingName :
    AsksUnder s (Environment.openingName (String.ofList name)) := by
  intro r r' options h
  by_cases hmath : String.ofList name ∈ mathEnvironments
  · -- formulas are not looked up
    have hisMath : EnvironmentTag.isMath ⟨"\\begin".toList.length, name.length + 2, name,
        .braced name⟩ = true := by
      simpa [EnvironmentTag.isMath] using hmath
    rw [step_opening hfree hname hrest, step_opening hfree hname hrest,
      openEnvironment_of_math hisMath, openEnvironment_of_math hisMath]
  · obtain ⟨hstep, hkey⟩ := step_openBody (x := ⟨r, options⟩) hfree hname hrest hmath
    obtain ⟨hstep', -⟩ := step_openBody (x := ⟨r', options⟩) hfree hname hrest hmath
    rw [hstep, hstep', openBody, openBody]
    dsimp only
    rw [hkey, Registry.environment?, Registry.environment?, h]

/-- Where nothing else is filed under its opening, an ignored environment is found and ignored. -/
theorem top_step_addEnvironment (hmath : String.ofList name ∉ mathEnvironments) {e : Environment}
    (hopening : e.opening.name = Environment.openingName (String.ofList name))
    (haction : e.action = .ignore) {n : Nat} (hmatch : e.opening.length? s.rest = some n)
    {r : Registry} (hnone : r.environments (Environment.openingName (String.ofList name)) = [])
    (options : Options) :
    (step ⟨r.addEnvironment e, options⟩ s).modes.top = .ignoredEnvironment := by
  -- no other signature is filed under the name, so that the new one is the longest match
  have hfound : (r.addEnvironment e).environment?
      (Environment.openingName (String.ofList name)) s.rest = some ⟨e, n⟩ := by
    rw [Registry.environment?, r.environments_addEnvironment, hnone, if_pos hopening, longest?,
      List.nil_append, List.foldl_cons, List.foldl_nil, hmatch]
  obtain ⟨hstep, hkey⟩ :=
    step_openBody (x := ⟨r.addEnvironment e, options⟩) hfree hname hrest hmath
  rw [hstep, modes_settle, openBody]
  dsimp only
  rw [hkey, show (begun s).keepPending.rest = s.rest from rfl, hfound]
  dsimp only
  rw [if_pos haction, modes_markup]
  rfl

end Openings

/-- Every prototype but the empty one is that of a command whose name ends in no pair, unless it is
    no longer than one; and every such command is read from its own prototype.  An environment whose
    name holds no braces is read from its opening with any arguments and, if the name does not begin
    like an opening, from its bare name.  Either way it is filed under its opening, which is what
    the extractor asks for where the environment is opened. -/
theorem prototypes_round_trip :
    (∀ (prototype : String) (action : Action), prototype ≠ "" →
      ∃ c, Command.ofPrototype? prototype action = some c ∧ c.prototype = prototype ∧
        c.action = action ∧ c.name ≠ "" ∧
        (2 < c.name.utf8ByteSize → ∀ d : Delimiter, ¬ d.pair <:+ c.name.toList)) ∧
    (∀ c : Command, c.name ≠ "" →
      (c.name.utf8ByteSize ≤ 2 ∨ ∀ d : Delimiter, ¬ d.pair <:+ c.name.toList) →
      Command.ofPrototype? c.prototype c.action = some c) ∧
    ∀ name : String, name ≠ "" → '{' ∉ name.toList → '}' ∉ name.toList →
      (∀ arguments action, Environment.ofPrototype?
        (Command.prototype ⟨Environment.openingName name, arguments, action⟩) action =
          some ⟨name, ⟨Environment.openingName name, arguments, action⟩, false⟩) ∧
      (¬ "\\start".toList <+: name.toList → ∀ action, Environment.ofPrototype? name action =
        some ⟨name, ⟨Environment.openingName name, [], action⟩, true⟩) ∧
      ∀ e : Environment, e.opening.name = Environment.openingName name →
        (∀ (r : Registry) (opening : String), (r.addEnvironment e).environments opening =
          r.environments opening ++ if Environment.openingName name = opening then [e] else []) ∧
        ∀ (s : State) (after : List Char), s.modes.top.isOpaque = false →
          s.rest = (Environment.openingName name).toList ++ after →
          AsksUnder s (Environment.openingName name) ∧
          (name ∉ mathEnvironments → e.action = .ignore → (e.opening.length? s.rest).isSome →
            ∀ (r : Registry) (options : Options),
              r.environments (Environment.openingName name) = [] →
              (step ⟨r.addEnvironment e, options⟩ s).modes.top = .ignoredEnvironment) := by
  refine ⟨?_, fun c hne hopen => Command.ofPrototype?_prototype ⟨hne, hopen⟩, ?_⟩
  · intro prototype action hne
    obtain ⟨c, hc⟩ := Command.exists_ofPrototype? hne action
    obtain ⟨hprototype, haction, hname⟩ := Command.ofPrototype?_eq_some_iff.mp hc
    refine ⟨c, hc, hprototype, haction, hname.ne_empty, fun hlong => ?_⟩
    exact hname.short_or_open.resolve_left (Nat.not_le.mpr hlong)
  · intro name hne hbrace hclosing
    refine ⟨Environment.ofPrototype?_opening hne hbrace hclosing, ?_, ?_⟩
    · intro hstart
      refine Environment.ofPrototype?_bare hne (fun hbegin => hbrace ?_) hstart
      exact hbegin.subset (by decide)
    · intro e hopening
      refine ⟨fun r opening => by rw [r.environments_addEnvironment, hopening], ?_⟩
      intro s after hfree hrest
      -- in the source the name is a list of characters
      rw [← String.ofList_toList (s := name), Environment.toList_openingName, ← tag_append] at hrest
      rw [← String.ofList_toList (s := name)] at hopening ⊢
      refine ⟨asksUnder_openingName hfree hclosing hrest, ?_⟩
      intro hmath haction hmatch r options hnone
      obtain ⟨n, hn⟩ := Option.isSome_iff_exists.mp hmatch
      exact top_step_addEnvironment hfree hclosing hrest hmath hopening haction hn hnone options

/-- Names that look like pairs, one of them that of an environment, and a letter of two bytes. -/
theorem prototypes_round_trip_pairs :
    Command.ofPrototype? "\x7b\x7d[]" .default = some ⟨"\x7b\x7d", [.bracket], .default⟩ ∧
    Command.ofPrototype? "é\x7b\x7d()" .ignore = some ⟨"é", [.brace, .parenthesis], .ignore⟩ ∧
    ∃ written bare : Environment,
      Environment.ofPrototype? "\\begin\x7btab()\x7d[]" .ignore = some written ∧
      Environment.ofPrototype? "tab()" .ignore = some bare ∧
      (step ⟨Registry.empty.addEnvironment written, {}⟩
        (.start "\\begin\x7btab()\x7d[x]y".toList 0)).modes.top = .ignoredEnvironment ∧
      (step ⟨Registry.empty.addEnvironment bare, {}⟩
        (.start "\\begin\x7btab()\x7d[x]y".toList 0)).modes.top = .ignoredEnvironment := by
  obtain ⟨-, hcommands, henvironments⟩ := prototypes_round_trip
  obtain ⟨hwritten, hbare, hfiled⟩ := henvironments "tab()" (by decide) (by decide) (by decide)
  refine ⟨hcommands ⟨"\x7b\x7d", [.bracket], .default⟩ (by decide) (.inl (by decide)),
    hcommands ⟨"é", [.brace, .parenthesis], .ignore⟩ (by decide) (.inl (by decide)),
    _, _, hwritten [.bracket] .ignore, hbare (by decide) .ignore, ?_, ?_⟩
  all_goals
    refine ((hfiled _ rfl).2 _ "[x]y".toList (by decide) (by decide)).2 (by decide) rfl ?_ _ _ rfl
    decide

end Extractor

end ProseLens
