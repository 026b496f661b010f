import ProseLens.Proofs.Extract.Reachable
import ProseLens.Proofs.Signature.Filing

/-!
# What is filed decides an extraction

An extraction asks its signatures in two places: where an environment is opened and where a command
has no meaning of its own.  Both ask for one name.  So two registries that hold the same under each
name are as good as each other for every step, and hence for every run.

## Key results

- `step_congr`, `extract_congr`: registries that hold the same under each name
- `filings_matter_by_name`: filings, what they make of a registry, and what is found in it
-/

namespace ProseLens.Extractor

open Extract Signature

variable {r r' : Registry}

section Steps

variable (h : r.Alike r') (options : Options) (s : State)
include h

/-- The opening of an environment asks the registry under one key only. -/
theorem openBody_congr (tag : EnvironmentTag) :
    openBody ⟨r, options⟩ s tag = openBody ⟨r', options⟩ s tag := by
  simp only [openBody, h.environment?_eq]

/-- The opening of a formula does not ask the registry at all. -/
theorem openEnvironment_congr (tag : EnvironmentTag) :
    openEnvironment ⟨r, options⟩ s tag = openEnvironment ⟨r', options⟩ s tag := by
  simp only [openEnvironment, openBody_congr h]

/-- A command asks the registry under its name only. -/
theorem command_congr (token : List Char) :
    command ⟨r, options⟩ s token = command ⟨r', options⟩ s token := by
  simp only [command, h.command?_eq]

/-- Control sequences depend on the registry through what it answers. -/
theorem control_congr (token : List Char) :
    control ⟨r, options⟩ s token = control ⟨r', options⟩ s token := by
  unfold control
  cases Control.ofToken token with
  | opening attached => exact openEnvironment_congr h options s _
  | other => exact command_congr h options s token
  | _ => rfl

/-- What begins with a backslash asks the registry through its control sequence only. -/
theorem backslash_congr : backslash ⟨r, options⟩ s = backslash ⟨r', options⟩ s := by
  simp only [backslash, control_congr h]

/-- Only a backslash can begin something that the signatures are asked about. -/
theorem construct_congr (c : Char) :
    construct ⟨r, options⟩ s c = construct ⟨r', options⟩ s c := by
  unfold construct
  rw [backslash_congr h]
  rfl

/-- Registries that answer alike drive every step alike. -/
theorem step_congr : step ⟨r, options⟩ s = step ⟨r', options⟩ s := by
  simp only [step, construct_congr h]

/-- Registries that answer alike stall in the same states. -/
theorem stalls_congr : Stalls ⟨r, options⟩ s ↔ Stalls ⟨r', options⟩ s := by
  rw [Stalls, Stalls, step_congr h]

/-- A run goes the same way, step by step. -/
theorem runFrom_congr (source : List Char) :
    runFrom ⟨r, options⟩ source s = runFrom ⟨r', options⟩ source s := by
  -- both runs move, stall and skip at the same states, so that one induction follows them both
  fun_induction runFrom ⟨r, options⟩ source s with
  | case1 s hrest => rw [runFrom_of_end _ _ (by simpa using hrest)]
  | case2 s hrest before next hmoves ih =>
    have hrest' : s.rest ≠ [] := by simpa using hrest
    have hmoves' : ¬ Stalls ⟨r', options⟩ s := by
      rw [← stalls_congr h]
      exact fun hstalls => hstalls.2 hmoves
    rw [ih, runFrom_of_moves _ _ hrest' hmoves', ← step_congr h]
  | case3 s hrest before next hstays hstrict =>
    have hstalls : Stalls ⟨r', options⟩ s :=
      (stalls_congr h options s).mp ⟨by simpa using hrest, hstays⟩
    rw [runFrom_of_strict _ _ hstalls hstrict, ← step_congr h]
  | case4 s hrest before next hstays hstrict ih =>
    have hstalls : Stalls ⟨r', options⟩ s :=
      (stalls_congr h options s).mp ⟨by simpa using hrest, hstays⟩
    rw [ih, runFrom_of_lenient _ _ hstalls (by simpa using hstrict), ← step_congr h]

end Steps

/-- Registries that answer alike drive every extraction alike. -/
theorem extract_congr (h : r.Alike r') (options : Options) (source : String) (origin : Nat) :
    extract ⟨r, options⟩ source origin = extract ⟨r', options⟩ source origin := by
  rw [extract, extract, run, run, runFrom_congr h]

/-- Whatever registry one begins with and whatever is filed.  Under each name the registry holds
    what it held, and after it what was filed under that name, in the order of filing; and its
    size grows by all that was filed.  Groups in a hash table represent it throughout.  Filings
    that bring the same under each name give the same matches and the same extractions.  What is
    found is the last one filed of its name and its arguments, and so an entry of the settings is
    found itself wherever it matches, unless an entry or a built-in signature takes more arguments
    there. -/
theorem filings_matter_by_name (base : Registry) (filings : List Filing) :
    (∀ name, (base.fileAll filings).commands name =
      base.commands name ++ (filings.flatMap Filing.commands).filter (·.name == name)) ∧
    (∀ opening, (base.fileAll filings).environments opening = base.environments opening ++
      (filings.flatMap Filing.environments).filter (·.opening.name == opening)) ∧
    (base.fileAll filings).commandCount =
      base.commandCount + (filings.flatMap Filing.commands).length ∧
    (base.fileAll filings).environmentCount =
      base.environmentCount + (filings.flatMap Filing.environments).length ∧
    (∃ index : Index, index.Represents base) ∧
    (∀ index : Index, index.Represents base →
      (index.fileAll filings).Represents (base.fileAll filings)) ∧
    (∀ others, Filing.SameByName filings others →
      (∀ name source offset, (base.fileAll filings).commandAt? name source offset =
        (base.fileAll others).commandAt? name source offset) ∧
      (∀ opening source offset, (base.fileAll filings).environmentAt? opening source offset =
        (base.fileAll others).environmentAt? opening source offset) ∧
      ∀ options source origin, extract ⟨base.fileAll filings, options⟩ source origin =
        extract ⟨base.fileAll others, options⟩ source origin) ∧
    (∀ name source offset found,
      (base.fileAll filings).commandAt? name source offset = some found →
      ∃ earlier later, (base.fileAll filings).filedCommands = earlier ++ found.signature :: later ∧
        ∀ c ∈ later,
          ¬ (c.name = found.signature.name ∧ c.arguments = found.signature.arguments)) ∧
    (∀ (settings : Settings) (entry : String × String) (c : Signature.Command)
      (source : String) (offset stop : Nat), entry ∈ settings.commands.toList →
      Settings.command? entry = some c → c.matchEnd? source offset = some stop →
      ∃ found, settings.registry.commandAt? c.name source offset = some found ∧
        c.arguments <+: found.signature.arguments ∧
        (found.signature.arguments = c.arguments → found.signature = c)) := by
  refine ⟨base.commands_fileAll filings, base.environments_fileAll filings,
    base.commandCount_fileAll filings, base.environmentCount_fileAll filings,
    Index.exists_represents base, fun index h => h.fileAll filings, ?_, ?_, ?_⟩
  -- filings that agree name by name leave registries that answer alike
  · intro others hsame
    have halike := base.alike_fileAll hsame
    exact ⟨halike.commandAt?_eq, halike.environmentAt?_eq, extract_congr halike⟩
  · intro name source offset found hfound
    exact Registry.exists_last_of_commandAt? hfound
  · intro settings entry c source offset stop hentry hc hstop
    exact Settings.exists_commandAt?_of_matchEnd? hentry hc hstop

/-- Two commands, filed one by one or as an extension that has them the other way round.  The first
    of them hides citations, whether it is filed here or set as an entry. -/
theorem filings_matter_by_name_citation :
    ∃ (filings others : List Filing) (index : Index) (settings : Settings),
      filings = [.command ⟨"\\cite", [.brace], .ignore⟩, .command ⟨"\\foo", [], .default⟩] ∧
      others = [.extension [⟨"\\foo", [], .default⟩, ⟨"\\cite", [.brace], .ignore⟩] []] ∧
      settings.commands.toList = [("\\cite\x7b\x7d", "ignore")] ∧
      (index.fileAll filings).Represents (Registry.builtin.fileAll filings) ∧
      (∀ source, extract ⟨Registry.builtin.fileAll filings, {}⟩ source 0 =
        extract ⟨Registry.builtin.fileAll others, {}⟩ source 0) ∧
      (∃ found, (Registry.builtin.fileAll filings).commandAt? "\\cite" "\\cite\x7bk\x7d" 0 =
        some found ∧ found.signature.action = .ignore) ∧
      ∃ found, settings.registry.commandAt? "\\cite" "\\cite\x7bk\x7d" 0 = some found ∧
        [.brace] <+: found.signature.arguments ∧
        (found.signature.arguments = [.brace] → found.signature.action = .ignore) := by
  obtain ⟨hcommands, -, -, -, ⟨index, hindex⟩, hrepresents, hsame, -, hsettings⟩ :=
    filings_matter_by_name .builtin
      [.command ⟨"\\cite", [.brace], .ignore⟩, .command ⟨"\\foo", [], .default⟩]
  have hother : Filing.SameByName
      [.command ⟨"\\cite", [.brace], .ignore⟩, .command ⟨"\\foo", [], .default⟩]
      [.extension [⟨"\\foo", [], .default⟩, ⟨"\\cite", [.brace], .ignore⟩] []] := by
    constructor
    · intro name
      -- under no name is there more than one of the two
      by_cases hcite : "\\cite" = name
      · subst hcite
        rfl
      · simp [Filing.commands, List.filter_cons, hcite]
    · intro opening
      rfl
  have hcite : Registry.builtin.commands "\\cite" =
      [⟨"\\cite", [.brace], .placeholder .singular⟩,
       ⟨"\\cite", [.bracket, .brace], .placeholder .singular⟩,
       ⟨"\\cite", [.bracket, .bracket, .brace], .placeholder .singular⟩] := by decide +kernel
  refine ⟨_, _, index,
    { commands := ({} : Std.TreeMap String String).insert "\\cite\x7b\x7d" "ignore" },
    rfl, rfl, rfl, hrepresents index hindex, fun source => (hsame _ hother).2.2 {} source 0, ?_, ?_⟩
  · refine ⟨⟨⟨"\\cite", [.brace], .ignore⟩, 0, 8⟩, ?_, rfl⟩
    rw [Registry.commandAt?, hcommands, hcite]
    rfl
  · obtain ⟨found, hfound, hbegins, hlast⟩ := hsettings
      { commands := ({} : Std.TreeMap String String).insert "\\cite\x7b\x7d" "ignore" }
      ("\\cite\x7b\x7d", "ignore") ⟨"\\cite", [.brace], .ignore⟩ "\\cite\x7bk\x7d" 0 8
      List.mem_cons_self rfl rfl
    refine ⟨found, hfound, hbegins, fun harguments => ?_⟩
    rw [hlast harguments]

end ProseLens.Extractor
