import ProseLens.Proofs.Extract.FormulaBody
import ProseLens.Proofs.Signature.Longest

/-!
# How far an environment's opening goes

The opening of an environment is its tag and what the signatures count to it.  A formula, an
environment that is not known and one that ignores all its arguments take every argument that
follows directly, of whatever kind: an `ArgumentRun`, which ends where no argument begins.  An
environment with arguments of its own takes what its signature matched and nothing else.  None of
this shows in the plain text, and the body is read in a mode of its own.

Only the kind of an argument that begins with its opening delimiter can match, so that from any
place there is one run and it has one end.

## Key results

- `argumentRun_spec`: the characters that are taken for arguments are a run
- `existsUnique_argumentRun`: from every place of every source there is exactly one
- `Opens`, with one lemma for each kind of opening
- `environment_openings`: where an opening ends and what it leaves behind
-/

namespace ProseLens

namespace Signature

/-! ## Runs of arguments -/

/-- Arguments follow each other directly from byte `start` of `source` to byte `stop`, and none
    begins there. -/
inductive ArgumentRun (source : String) : (start stop : Nat) → Prop where
  /-- No argument begins here. -/
  | done {stop : Nat} (h : ∀ kind, argumentEnd? kind source stop = none) :
    ArgumentRun source stop stop
  /-- One more argument. -/
  | argument {start next stop : Nat} (kind : Delimiter)
      (h : argumentEnd? kind source start = some next) (hrest : ArgumentRun source next stop) :
    ArgumentRun source start stop

variable {source : String} {start stop : Nat}

/-- No argument begins at the end of a run. -/
theorem ArgumentRun.argumentEnd?_eq_none (h : ArgumentRun source start stop) (kind : Delimiter) :
    argumentEnd? kind source stop = none := by
  induction h with
  | done h => exact h kind
  | argument _ _ _ ih => exact ih

/-- The end of an argument is its start and the bytes of the argument. -/
theorem argumentEnd?_eq_map {cs : List Char} (h : Text.dropBytes? source.toList start = some cs)
    (kind : Delimiter) : argumentEnd? kind source start =
      (argument? kind cs).map fun n => start + Text.byteLength (cs.take n) := by
  rw [argumentEnd?, Text.measureAt?_eq_map h, Option.map_map]
  rfl

/-- At most one kind of argument begins at a place. -/
theorem argumentEnd?_unique {d e : Delimiter} {next next' : Nat}
    (h : argumentEnd? d source start = some next) (h' : argumentEnd? e source start = some next') :
    next = next' := by
  obtain ⟨text, hslice, -⟩ := argumentEnd?_eq_some_iff.mp h
  obtain ⟨rest, hdrop, -⟩ := Text.slice?_eq_some_iff.mp hslice
  rw [argumentEnd?_eq_map hdrop] at h h'
  obtain ⟨n, hn, rfl⟩ := Option.map_eq_some_iff.mp h
  obtain ⟨m, hm, rfl⟩ := Option.map_eq_some_iff.mp h'
  obtain rfl := kind_eq_of_argument? hn hm
  rw [hn] at hm
  rw [Option.some.inj hm]

/-- A run has one end. -/
theorem ArgumentRun.unique {stop' : Nat} (h : ArgumentRun source start stop)
    (h' : ArgumentRun source start stop') : stop = stop' := by
  induction h with
  | done hnone =>
    cases h' with
    | done => rfl
    | argument kind hend => simp [hnone kind] at hend
  -- at one place at most one kind of argument starts, so that both runs take it
  | argument kind hend _ ih =>
    cases h' with
    | done hnone => simp [hnone kind] at hend
    | argument kind' hend' hrest' =>
      obtain rfl := argumentEnd?_unique hend hend'
      exact ih hrest'

/-- No argument begins here if none does of any kind. -/
theorem anyArgument?_eq_none_iff {cs : List Char} :
    anyArgument? cs = none ↔ ∀ kind, argument? kind cs = none := by
  rw [anyArgument?, List.findSome?_eq_none_iff]
  constructor
  · intro h kind
    exact h kind (by cases kind <;> decide)
  · intro h kind _
    exact h kind

/-- The characters that are taken for arguments are a run of arguments. -/
theorem argumentRun_spec {cs : List Char} (h : Text.dropBytes? source.toList start = some cs) :
    ArgumentRun source start
      (start + Text.byteLength (cs.take (Extract.argumentRun cs).sum)) := by
  -- by induction on the length of what is left, since each argument takes something
  induction hlength : cs.length using Nat.strongRecOn generalizing cs start with
  | ind length ih =>
    rw [argumentRun_eq]
    cases hargument : anyArgument? cs with
    | none =>
      refine .done ?_
      intro kind
      show argumentEnd? kind source start = none
      rw [argumentEnd?_eq_map h, anyArgument?_eq_none_iff.mp hargument kind, Option.map_none]
    | some n =>
      obtain ⟨kind, -, hkind⟩ := List.exists_of_findSome?_eq_some hargument
      have hend := argumentEnd?_eq_map h kind
      rw [hkind, Option.map_some] at hend
      have hnext := Text.dropBytes?_of_dropBytes? h (List.take_append_drop n cs).symm
      have hpos := argument?_pos hkind
      have hle := le_length_of_argument? hkind
      have hshorter : (cs.drop n).length < length := by
        rw [List.length_drop]
        omega
      have hrest := ih _ hshorter hnext rfl
      rw [Nat.add_assoc, ← Text.byteLength_append, ← List.take_add] at hrest
      exact .argument kind hend hrest

/-- From every place of every source there is exactly one run, which may be empty. -/
theorem existsUnique_argumentRun (source : String) (start : Nat) :
    ∃! stop, ArgumentRun source start stop := by
  apply existsUnique_of_exists_of_unique
  · cases hdrop : Text.dropBytes? source.toList start with
    | some cs => exact ⟨_, argumentRun_spec hdrop⟩
    | none =>
      -- nothing begins inside a character or past the end
      refine ⟨start, .done ?_⟩
      intro kind
      rw [argumentEnd?, Text.measureAt?, hdrop]
      rfl
  · intro stop stop' h h'
    exact h.unique h'

end Signature

namespace Extractor

open Extract State Signature

variable {x : Extractor} {source : String} {origin : Nat} {s t : State} {after name : List Char}

/-! ## Openings of each kind -/

/-- `t` comes from `s` by an opening that goes up to `after`: nothing is shown, and the mode is
    entered in which the body is read. -/
structure Opens (s t : State) (mode : Mode) (after : List Char) : Prop where
  rest_eq : t.rest = after
  modes_eq : t.modes = s.modes.push mode
  plain_eq : t.builder.plain = s.builder.plain

/-- What has been opened stays open when the state settles. -/
theorem Opens.settle {mode : Mode} (h : Opens s t mode after) :
    Opens s (settle t) mode after :=
  ⟨(rest_settle t).trans h.rest_eq, (modes_settle t).trans h.modes_eq,
    (congrArg (·.plain) (builder_settle t)).trans h.plain_eq⟩

/-- Markup behind an opening takes what follows it. -/
theorem Opens.markup {mode : Mode} (h : Opens s t mode after) (n : Nat) :
    Opens s (t.markup n) mode (after.drop n) :=
  ⟨by rw [rest_markup, h.rest_eq], (t.modes_markup n).trans h.modes_eq,
    (t.plain_markup n).trans h.plain_eq⟩

/-- The rest of the tag is taken behind the opening. -/
theorem Opens.finishTag {mode : Mode} (h : Opens s t mode after) (tag : EnvironmentTag) :
    Opens s (t.finishTag tag) mode (after.drop tag.group) := by
  have hquiet : Opens s t.markTrivial.keepPending mode after :=
    ⟨h.rest_eq, h.modes_eq, h.plain_eq⟩
  exact hquiet.markup tag.group

/-- All arguments that follow are passed over. -/
theorem Opens.swallowArguments {mode : Mode} (h : Opens s t mode after) :
    Opens s t.swallowArguments mode (after.drop (argumentRun after).sum) := by
  rw [State.swallowArguments, h.rest_eq]
  generalize argumentRun after = lengths
  induction lengths generalizing t after with
  | nil => exact h
  | cons n lengths ih =>
    rw [List.foldl_cons, List.sum_cons, ← List.drop_drop]
    exact ih (h.markup n)

section Kinds

variable (hfree : s.modes.top.isOpaque = false) (hname : '}' ∉ name)
  (hrest : s.rest = "\\begin".toList ++ '{' :: (name ++ '}' :: after))

include hrest in
/-- What is unread behind the whole opening tag. -/
theorem drop_opening : (s.rest.drop "\\begin".toList.length).drop (name.length + 2) = after := by
  rw [List.drop_drop, hrest]
  exact drop_tag "\\begin".toList name after

include hfree hname hrest

/-- The opening of a formula. -/
theorem opens_formula (hmath : String.ofList name ∈ mathEnvironments) :
    Opens s (x.step s) (formulaMode name) (after.drop (argumentRun after).sum) := by
  have hisMath : EnvironmentTag.isMath ⟨"\\begin".toList.length, name.length + 2, name,
      .braced name⟩ = true := by
    simpa [EnvironmentTag.isMath] using hmath
  rw [step_opening hfree hname hrest, openEnvironment_of_math hisMath]
  -- the mode is entered between the control sequence and the name
  have hentered : Opens s (enterFormula ((begun s).keepPending.markup "\\begin".toList.length) name)
      (formulaMode name) (s.rest.drop "\\begin".toList.length) :=
    ⟨rest_markup _ _, congrArg (ModeStack.push · _) (modes_markup _ _), plain_markup _ _⟩
  have hnamed := hentered.markup (name.length + 2)
  rw [drop_opening hrest] at hnamed
  exact hnamed.swallowArguments.settle

variable (hmath : String.ofList name ∉ mathEnvironments)

include hmath

/-- An environment that is no formula is opened as its signatures say, which are looked for under
    its tag. -/
theorem step_openBody :
    x.step s = settle (x.openBody (begun s).keepPending
      ⟨"\\begin".toList.length, name.length + 2, name, .braced name⟩) ∧
    String.ofList ((begun s).keepPending.rest.take ("\\begin".toList.length + (name.length + 2))) =
      Environment.openingName (String.ofList name) := by
  have hisMath : ¬ EnvironmentTag.isMath ⟨"\\begin".toList.length, name.length + 2, name,
      .braced name⟩ = true := by
    simpa [EnvironmentTag.isMath] using hmath
  constructor
  · rw [step_opening hfree hname hrest, openEnvironment]
    dsimp only
    rw [if_neg hisMath]
  -- the registry is asked under the text of the tag as it stands in the source
  · show String.ofList (s.rest.take _) = _
    rw [hrest]
    exact ofList_take_opening name after

/-- The opening of an environment that no signature is found for. -/
theorem opens_unknown
    (hnone : x.registry.environment? (Environment.openingName (String.ofList name)) s.rest = none) :
    Opens s (x.step s) s.modes.top (after.drop (argumentRun after).sum) := by
  obtain ⟨hstep, htag⟩ := step_openBody (x := x) hfree hname hrest hmath
  rw [hstep, openBody]
  dsimp only
  rw [htag, show (begun s).keepPending.rest = s.rest from rfl, hnone]
  -- the mode is pushed behind `\begin`, before the name and the arguments are recorded
  have hentered : Opens s (((begun s).keepPending.markup "\\begin".toList.length).push s.modes.top)
      s.modes.top (s.rest.drop "\\begin".toList.length) :=
    ⟨rest_markup _ _, congrArg (ModeStack.push · _) (modes_markup _ _), plain_markup _ _⟩
  have hnamed := hentered.finishTag
    ⟨"\\begin".toList.length, name.length + 2, name, .braced name⟩
  rw [drop_opening hrest] at hnamed
  exact hnamed.swallowArguments.settle

variable {found : Match Environment}
  (hfound : x.registry.environment? (Environment.openingName (String.ofList name)) s.rest =
    some found)
  (haction : found.signature.action ≠ .ignore)

include hfound haction

/-- The opening of an environment that ignores all its arguments. -/
theorem opens_swallowing (hall : found.signature.ignoresAllArguments = true) :
    Opens s (x.step s) s.modes.top (after.drop (argumentRun after).sum) := by
  obtain ⟨hstep, htag⟩ := step_openBody (x := x) hfree hname hrest hmath
  rw [hstep, openBody]
  dsimp only
  rw [htag, show (begun s).keepPending.rest = s.rest from rfl, hfound]
  dsimp only
  rw [if_neg haction, if_pos hall]
  -- here the mode is pushed before anything is recorded, which leaves the same state
  have hentered : Opens s (((begun s).keepPending.push s.modes.top).markup "\\begin".toList.length)
      s.modes.top (s.rest.drop "\\begin".toList.length) :=
    ⟨rest_markup _ _, modes_markup _ _, plain_markup _ _⟩
  have hnamed := hentered.finishTag
    ⟨"\\begin".toList.length, name.length + 2, name, .braced name⟩
  rw [drop_opening hrest] at hnamed
  exact hnamed.swallowArguments.settle

/-- The opening of an environment with arguments of its own. -/
theorem opens_matched (hall : found.signature.ignoresAllArguments = false) :
    Opens s (x.step s) s.modes.top (s.rest.drop found.length) := by
  obtain ⟨hstep, htag⟩ := step_openBody (x := x) hfree hname hrest hmath
  rw [hstep, openBody]
  dsimp only
  rw [htag, show (begun s).keepPending.rest = s.rest from rfl, hfound]
  dsimp only
  rw [if_neg haction, if_neg (by rw [hall]; exact Bool.false_ne_true)]
  -- the match is recorded in one piece, name and arguments together
  have hentered : Opens s (((begun s).keepPending.push s.modes.top).markup found.length)
      s.modes.top (s.rest.drop found.length) :=
    ⟨rest_markup _ _, modes_markup _ _, plain_markup _ _⟩
  have hmatched : Opens s (((begun s).keepPending.push s.modes.top).markup
      found.length).markTrivial.keepPending s.modes.top (s.rest.drop found.length) :=
    ⟨hentered.rest_eq, hentered.modes_eq, hentered.plain_eq⟩
  exact hmatched.settle

end Kinds

/-! ## Openings by place -/

/-- Nothing is found in the text from a place on if nothing is found at that place. -/
theorem Registry.environment?_eq_none {r : Registry} {opening : String} {place : Nat}
    {cs : List Char} (hcs : Text.dropBytes? source.toList place = some cs)
    (h : r.environmentAt? opening source place = none) : r.environment? opening cs = none := by
  rw [Registry.environmentAt?, longestAt?_eq_map hcs, Option.map_eq_none_iff] at h
  exact h

section Places

variable (h : x.Reaches source.toList origin s)
  (hrest : s.rest = "\\begin".toList ++ '{' :: (name ++ '}' :: after))

include h hrest

/-- A step that opens something up to what follows `read` ends that many bytes further on. -/
theorem Opens.position_eq {mode : Mode} {read rest : List Char} {place : Nat}
    (hopens : Opens s (x.step s) mode rest)
    (hplace : Text.dropBytes? source.toList place = some (read ++ rest)) :
    (x.step s).position = place + Text.byteLength read := by
  have hleads : x.Leads s (x.step s) :=
    leads_step_before (List.cons_ne_nil _ _) (by decide) hrest
  rw [← hopens.rest_eq] at hplace
  exact (h.leads hleads).position_eq hplace

/-- An opening that goes up to the end of the arguments goes up to the end of their run. -/
theorem Opens.argumentRun {mode : Mode}
    (hopens : Opens s (x.step s) mode (after.drop (Extract.argumentRun after).sum)) :
    ArgumentRun source
      (s.position + (Environment.openingName (String.ofList name)).utf8ByteSize)
      (x.step s).position := by
  have hplace : Text.dropBytes? source.toList
      (s.position + (Environment.openingName (String.ofList name)).utf8ByteSize) = some after := by
    rw [← Text.byteLength_toList, Environment.toList_openingName]
    exact Text.dropBytes?_of_dropBytes? h.dropBytes? (hrest.trans (tag_append _ _ _))
  rw [hopens.position_eq h hrest (by rw [List.take_append_drop]; exact hplace)]
  exact argumentRun_spec hplace

variable (hfree : s.modes.top.isOpaque = false) (hname : '}' ∉ name)
  (hmath : String.ofList name ∉ mathEnvironments)

include hfree hname hmath

/-- The opening of an environment with arguments of its own goes up to the end of the match. -/
theorem position_of_matched {found : Located Environment}
    (hfound : x.registry.environmentAt? (Environment.openingName (String.ofList name)) source
      s.position = some found) (haction : found.signature.action ≠ .ignore)
    (hall : found.signature.ignoresAllArguments = false) : (x.step s).position = found.stop := by
  obtain ⟨n, hbest, hstop⟩ := Registry.environment?_of_environmentAt? h.dropBytes? hfound
  have hopens := opens_matched hfree hname hrest hmath hbest haction hall
  have hstop' : Text.dropBytes? source.toList found.stop = some ([] ++ s.rest.drop n) := hstop
  rw [hopens.position_eq h hrest hstop']
  rfl

/-- Unless it is ignored, an environment that is no formula is read in the current mode. -/
theorem exists_opens (haction : ∀ found,
      x.registry.environmentAt? (Environment.openingName (String.ofList name)) source s.position =
        some found → found.signature.action ≠ .ignore) :
    ∃ rest, Opens s (x.step s) s.modes.top rest := by
  -- three ways: no signature matches, one that swallows does, or one with arguments of its own
  cases hlook : x.registry.environmentAt? (Environment.openingName (String.ofList name)) source
      s.position with
  | none =>
    have hnone := Registry.environment?_eq_none h.dropBytes? hlook
    exact ⟨_, opens_unknown hfree hname hrest hmath hnone⟩
  | some found =>
    obtain ⟨n, hbest, -⟩ := Registry.environment?_of_environmentAt? h.dropBytes? hlook
    cases hall : found.signature.ignoresAllArguments with
    | true => exact ⟨_, opens_swallowing hfree hname hrest hmath hbest (haction found hlook) hall⟩
    | false => exact ⟨_, opens_matched hfree hname hrest hmath hbest (haction found hlook) hall⟩

end Places

/-- Wherever constructs are read, the opening of an environment goes up to the end of the arguments
    that follow directly if it opens a formula, if no signature is found or if the signature that is
    found ignores all arguments, and no argument begins there.  If that signature has arguments of
    its own, the opening goes up to the end of the match.  Unless the environment is ignored, its
    opening shows nothing and enters one mode: that of its formula, or the current one.  From every
    place of every source there is exactly one run of arguments. -/
theorem environment_openings (x : Extractor) (source : String) (origin : Nat) (s : State)
    (h : x.Reaches source.toList origin s)
    (hmode : s.modes.top ∉ [.ignoredEnvironment, .embeddedCodeChunk]) (name : String)
    (hname : '}' ∉ name.toList) (after : List Char)
    (hrest : s.rest = (Environment.openingName name).toList ++ after) :
    (name ∈ mathEnvironments ∨
      x.registry.environmentAt? (Environment.openingName name) source s.position = none ∨
      (∃ found, x.registry.environmentAt? (Environment.openingName name) source s.position =
        some found ∧ found.signature.ignoresAllArguments = true ∧
        found.signature.action ≠ .ignore) →
      ArgumentRun source (s.position + (Environment.openingName name).utf8ByteSize)
        (x.step s).position ∧
      ∀ kind, argumentEnd? kind source (x.step s).position = none) ∧
    (name ∉ mathEnvironments → ∀ found,
      x.registry.environmentAt? (Environment.openingName name) source s.position = some found →
      found.signature.ignoresAllArguments = false → found.signature.action ≠ .ignore →
      (x.step s).position = found.stop) ∧
    (name ∈ mathEnvironments ∨ (∀ found,
      x.registry.environmentAt? (Environment.openingName name) source s.position = some found →
        found.signature.action ≠ .ignore) →
      (x.step s).builder.plain = s.builder.plain ∧
      (x.step s).modes = s.modes.push (if name = "math" then .inlineMath
        else if name ∈ mathEnvironments then .displayMath else s.modes.top)) ∧
    ∀ (source : String) (start : Nat), ∃! stop, ArgumentRun source start stop := by
  have hfree : s.modes.top.isOpaque = false := by
    rw [Mode.isOpaque_eq_false_iff]
    simpa using hmode
  obtain ⟨cs, rfl⟩ : ∃ cs, name = String.ofList cs := ⟨name.toList, String.ofList_toList.symm⟩
  rw [String.toList_ofList] at hname
  rw [Environment.toList_openingName, ← tag_append] at hrest
  refine ⟨?_, ?_, ?_, existsUnique_argumentRun⟩
  · intro hcases
    -- in all three cases the opening goes up to the end of the arguments
    obtain ⟨mode, hopens⟩ :
        ∃ mode, Opens s (x.step s) mode (after.drop (argumentRun after).sum) := by
      by_cases hmath : String.ofList cs ∈ mathEnvironments
      · exact ⟨_, opens_formula hfree hname hrest hmath⟩
      · rcases hcases.resolve_left hmath with hnone | ⟨found, hfound, hall, haction⟩
        · have hnone' := Registry.environment?_eq_none h.dropBytes? hnone
          exact ⟨_, opens_unknown hfree hname hrest hmath hnone'⟩
        · obtain ⟨n, hbest, -⟩ := Registry.environment?_of_environmentAt? h.dropBytes? hfound
          exact ⟨_, opens_swallowing hfree hname hrest hmath hbest haction hall⟩
    have hrun := hopens.argumentRun h hrest
    exact ⟨hrun, hrun.argumentEnd?_eq_none⟩
  · intro hmath found hfound hall haction
    exact position_of_matched h hrest hfree hname hmath hfound haction hall
  · intro hcases
    by_cases hmath : String.ofList cs ∈ mathEnvironments
    · have hopens := opens_formula (x := x) hfree hname hrest hmath
      refine ⟨hopens.plain_eq, ?_⟩
      rw [hopens.modes_eq, if_pos hmath]
      rfl
    · obtain ⟨rest, hopens⟩ :=
        exists_opens h hrest hfree hname hmath (hcases.resolve_left hmath)
      have hother : String.ofList cs ≠ "math" := by
        intro heq
        rw [heq] at hmath
        exact hmath (by decide)
      refine ⟨hopens.plain_eq, ?_⟩
      rw [hopens.modes_eq, if_neg hother, if_neg hmath]

/-- Three arguments of different kinds after the opening of a formula, and a letter. -/
theorem environment_openings_align :
    ∃ source s, source = "\\begin\x7balign\x7d[x](y)\x7bz\x7dw" ∧
      s = Extractor.builtin.step (.start source.toList 0) ∧ s.position = 22 ∧
      ArgumentRun source 13 s.position ∧ s.modes.top = .displayMath := by
  obtain ⟨hrun, -, hshows, -⟩ := environment_openings Extractor.builtin
    "\\begin\x7balign\x7d[x](y)\x7bz\x7dw" 0 _ .start (by decide) "align" (by decide)
    "[x](y)\x7bz\x7dw".toList (by decide)
  refine ⟨_, _, rfl, rfl, by decide +kernel, (hrun (.inl (by decide))).1, ?_⟩
  rw [(hshows (.inl (by decide))).2]
  decide

end Extractor

end ProseLens
