import ProseLens.Proofs.Signature.Filing
import ProseLens.Proofs.Text.Order

/-!
# What settings come to

The registry of settings is built by asking for one signature after the other and filing each before
the next one is asked for.  Entries are read only when a signature is asked for, and those that are
skipped on the way are reported then (`Supply.next`).  So what is reported, and in which order,
depends on how far each supply has been read.  A supply that is read to its end has given all its
signatures and made all its reports (`Supply.drain_eq`), so that the building ends with the registry
of the settings and the reports of the settings (`Settings.build_eq`).

Each entry either stands for a signature or is skipped (`Sifted`), so that the signatures and the
reports of a map are together as many as its entries.

## Key results

- `Supply.accounts_next`: one signature asked for
- `Supply.drain_eq`: all signatures asked for
- `Settings.registry_accounts_for_entries`: what is filed, what is reported, and how many
-/

namespace ProseLens

open Signature

/-! ## Reading on demand -/

/-- Entries that are read when a signature is asked for. -/
inductive Supply (α : Type) : Type 1 where
  /-- One kind of entries: how one is read, and what is reported of one that cannot be used. -/
  | entries {β : Type} (read : β → Option α) (report : β → List Event) (list : List β)
  /-- One supply after another. -/
  | chain (first second : Supply α)

namespace Supply

variable {α β ρ : Type}

/-- Reads up to the first entry that can be used: what is reported on the way, and the signature
    with the entries behind it. -/
def firstUsable (read : β → Option α) (report : β → List Event) :
    List β → List Event × Option (α × List β)
  | [] => ([], none)
  | entry :: list =>
    match read entry with
    | some signature => ([], some (signature, list))
    | none =>
      let (reports, found) := firstUsable read report list
      (report entry ++ reports, found)

/-- Asks for a signature: what is reported on the way, and the signature with what is left. -/
def next : Supply α → List Event × Option (α × Supply α)
  | entries read report list =>
    let (reports, found) := firstUsable read report list
    (reports, found.map fun (signature, rest) => (signature, entries read report rest))
  | chain first second =>
    match first.next with
    | (reports, some (signature, rest)) => (reports, some (signature, chain rest second))
    | (reports, none) =>
      let (others, found) := second.next
      (reports ++ others, found)

/-- The number of entries. -/
def size : Supply α → Nat
  | entries _ _ list => list.length
  | chain first second => first.size + second.size

/-- All signatures. -/
def signatures : Supply α → List α
  | entries read _ list => list.filterMap read
  | chain first second => first.signatures ++ second.signatures

/-- All that is reported. -/
def reports : Supply α → List Event
  | entries read report list => (list.filter fun entry => (read entry).isNone).flatMap report
  | chain first second => first.reports ++ second.reports

/-- What comes of asking accounts for the supply: the signature and the reports come first, and the
    others are those of what is left.  Without a signature all has been read. -/
def Accounts (supply : Supply α) : List Event × Option (α × Supply α) → Prop
  | (reports, none) => supply.signatures = [] ∧ supply.reports = reports
  | (reports, some (signature, rest)) => supply.signatures = signature :: rest.signatures ∧
      supply.reports = reports ++ rest.reports ∧ rest.size < supply.size

section Entries

variable {read : β → Option α} {report : β → List Event} {entry : β} {list : List β}

/-- An entry that can be read adds its signature. -/
theorem signatures_cons_some {signature : α} (h : read entry = some signature) :
    (entries read report (entry :: list)).signatures =
      signature :: (entries read report list).signatures :=
  List.filterMap_cons_some h

/-- An entry that cannot be read adds no signature. -/
theorem signatures_cons_none (h : read entry = none) :
    (entries read report (entry :: list)).signatures = (entries read report list).signatures :=
  List.filterMap_cons_none h

/-- An entry that can be read reports nothing. -/
theorem reports_cons_some {signature : α} (h : read entry = some signature) :
    (entries read report (entry :: list)).reports = (entries read report list).reports := by
  simp [reports, h]

/-- An entry that cannot be read is reported. -/
theorem reports_cons_none (h : read entry = none) :
    (entries read report (entry :: list)).reports =
      report entry ++ (entries read report list).reports := by
  simp [reports, h]

/-- The next signature comes from the first entry that can be read, with the reports before it. -/
theorem accounts_next_entries (read : β → Option α) (report : β → List Event) (list : List β) :
    (entries read report list).Accounts (entries read report list).next := by
  induction list with
  | nil => exact ⟨rfl, rfl⟩
  | cons entry list ih =>
    cases hread : read entry with
    -- the first entry can be read, or it is passed with its report
    | some signature =>
      simp only [next, firstUsable, hread, Option.map_some]
      exact ⟨signatures_cons_some hread, reports_cons_some hread, Nat.lt_succ_self _⟩
    | none =>
      simp only [next, firstUsable, hread] at ih ⊢
      cases hfirst : firstUsable read report list with | mk others found =>
      rw [hfirst] at ih
      cases found with
      | none =>
        obtain ⟨hnothing, hothers⟩ := ih
        exact ⟨(signatures_cons_none hread).trans hnothing,
          by rw [reports_cons_none hread, hothers]⟩
      | some found =>
        obtain ⟨hfound, hothers, hsize⟩ := ih
        refine ⟨(signatures_cons_none hread).trans hfound, ?_, Nat.lt_succ_of_lt hsize⟩
        rw [reports_cons_none hread, hothers, List.append_assoc]

end Entries

/-- Whatever is asked for, nothing is lost. -/
theorem accounts_next (supply : Supply α) : supply.Accounts supply.next := by
  induction supply with
  | entries read report list => exact accounts_next_entries read report list
  | chain first second ihFirst ihSecond =>
    rw [next]
    cases hfirst : first.next with | mk others found =>
    rw [hfirst] at ihFirst
    cases found with
    | some found =>
      obtain ⟨hfound, hothers, hsize⟩ := ihFirst
      refine ⟨?_, ?_, Nat.add_lt_add_right hsize _⟩
      · rw [signatures, hfound, List.cons_append]
        rfl
      · rw [reports, hothers, List.append_assoc]
        rfl
    | none =>
      -- the first supply is used up, so that all that is found is in the second
      obtain ⟨hnothing, hothers⟩ := ihFirst
      have hsignatures : (chain first second).signatures = second.signatures := by
        rw [signatures, hnothing, List.nil_append]
      have hreports : (chain first second).reports = others ++ second.reports := by
        rw [reports, hothers]
      dsimp only
      cases hsecond : second.next with | mk more found =>
      rw [hsecond] at ihSecond
      cases found with
      | none => exact ⟨hsignatures.trans ihSecond.1, hreports.trans (congrArg _ ihSecond.2)⟩
      | some found =>
        obtain ⟨hfound, hmore, hsize⟩ := ihSecond
        refine ⟨hsignatures.trans hfound, ?_, Nat.lt_add_left _ hsize⟩
        rw [hreports, hmore, List.append_assoc]

/-- A supply accounts for what it gives next. -/
theorem accounts_of_next {supply : Supply α} {outcome : List Event × Option (α × Supply α)}
    (h : supply.next = outcome) : supply.Accounts outcome := h ▸ supply.accounts_next

/-- A supply gets smaller with every signature that it gives. -/
theorem size_lt_of_next {supply rest : Supply α} {reports : List Event} {signature : α}
    (h : supply.next = (reports, some (signature, rest))) : rest.size < supply.size :=
  (accounts_of_next h).2.2

/-- Files all signatures, each before the next one is asked for, and notes what is reported. -/
def drain (file : ρ → α → ρ) (supply : Supply α) (filed : ρ) (log : List Event) :
    ρ × List Event :=
  match _ : supply.next with
  | (reports, none) => (filed, log ++ reports)
  | (reports, some (signature, rest)) => drain file rest (file filed signature) (log ++ reports)
termination_by supply.size
decreasing_by exact size_lt_of_next ‹_›

/-- In the end all signatures are filed and all reports are noted. -/
theorem drain_eq (file : ρ → α → ρ) (supply : Supply α) (filed : ρ) (log : List Event) :
    supply.drain file filed log = (supply.signatures.foldl file filed, log ++ supply.reports) := by
  fun_induction drain file supply filed log with
  | case1 supply filed log reports hnext =>
    obtain ⟨hnothing, hreports⟩ := accounts_of_next hnext
    rw [hnothing, hreports, List.foldl_nil]
  | case2 supply filed log reports signature rest hnext ih =>
    obtain ⟨hfound, hreports, -⟩ := accounts_of_next hnext
    rw [ih, hfound, hreports, List.foldl_cons, List.append_assoc]

end Supply

/-! ## Every entry once -/

/-- Entries with the signatures that some of them stand for and the reports of all others. -/
inductive Sifted {α β : Type} (Reads : β → α → Prop) (report : β → List Event) :
    List β → List α → List Event → Prop where
  /-- Without entries there is nothing. -/
  | nil : Sifted Reads report [] [] []
  /-- The entry stands for a signature. -/
  | usable {entry : β} {signature : α} {entries : List β} {signatures : List α}
      {reports : List Event} (reads : Reads entry signature)
      (rest : Sifted Reads report entries signatures reports) :
      Sifted Reads report (entry :: entries) (signature :: signatures) reports
  /-- The entry stands for none and is reported. -/
  | unusable {entry : β} {entries : List β} {signatures : List α} {reports : List Event}
      (reads : ∀ signature, ¬ Reads entry signature)
      (rest : Sifted Reads report entries signatures reports) :
      Sifted Reads report (entry :: entries) signatures (report entry ++ reports)

namespace Sifted

variable {α β : Type} {Reads : β → α → Prop} {report : β → List Event}

/-- Reading entries sifts them. -/
theorem of_read {read : β → Option α}
    (hread : ∀ entry signature, read entry = some signature ↔ Reads entry signature)
    (list : List β) : Sifted Reads report list (Supply.entries read report list).signatures
      (Supply.entries read report list).reports := by
  induction list with
  | nil => exact .nil
  | cons entry list ih =>
    -- an entry is filed if it reads as a signature, and reported if not
    cases hentry : read entry with
    | some signature =>
      rw [Supply.signatures_cons_some hentry, Supply.reports_cons_some hentry]
      exact .usable ((hread entry signature).mp hentry) ih
    | none =>
      rw [Supply.signatures_cons_none hentry, Supply.reports_cons_none hentry]
      refine .unusable (fun signature hreads => ?_) ih
      rw [(hread entry signature).mpr hreads] at hentry
      cases hentry

/-- Each entry counts once, as a signature or as a report. -/
theorem length_add_length {entries : List β} {signatures : List α} {reports : List Event}
    (h : Sifted Reads report entries signatures reports)
    (hreport : ∀ entry, (report entry).length = 1) :
    signatures.length + reports.length = entries.length := by
  induction h with
  | nil => rfl
  | usable _ _ ih => rw [List.length_cons, List.length_cons, ← ih, Nat.add_right_comm]
  | @unusable entry _ _ _ _ _ ih =>
    rw [List.length_append, hreport entry, List.length_cons, ← ih, Nat.add_left_comm,
      Nat.add_comm 1]

end Sifted

/-- The entries of a map, each once and in the order of the bytes of their keys. -/
structure Enumerates (map : Std.TreeMap String String) (entries : List (String × String)) :
    Prop where
  /-- They are the entries of the map. -/
  mem_iff : ∀ key value, (key, value) ∈ entries ↔ map[key]? = some value
  /-- Keys with lower bytes come first. -/
  ordered : entries.Pairwise fun entry later =>
    entry.1.toUTF8.data.toList < later.1.toUTF8.data.toList

/-- The entries of a map come in the order of their keys, each one once. -/
theorem enumerates_toList (map : Std.TreeMap String String) : Enumerates map map.toList where
  mem_iff _ _ := Std.TreeMap.mem_toList_iff_getElem?_eq_some
  ordered := Std.TreeMap.ordered_keys_toList.imp Text.data_toUTF8_lt

/-! ## Building the registry -/

namespace Signature

/-- The index of the built-in signatures. -/
def Index.builtin : Index := Index.file {} (.extension Builtin.commands Builtin.environments)

/-- The built-in index represents the built-in registry. -/
theorem Index.represents_builtin : Index.builtin.Represents Registry.builtin :=
  Represents.empty.file (.extension Builtin.commands Builtin.environments)

/-- The actions by the names that settings have for them. -/
def Action.settings : List (String × Action) :=
  [("default", .default), ("ignore", .ignore), ("dummy", .placeholder .singular),
    ("pluralDummy", .placeholder .several), ("vowelDummy", .placeholder .vocalic)]

/-- The actions that have a name in settings. -/
theorem Action.ofSetting?_eq_some_iff {name : String} {action : Action} :
    ofSetting? name = some action ↔ (name, action) ∈ settings := by
  unfold ofSetting?
  split <;> simp_all [settings, eq_comm]

end Signature

namespace Settings

/-- The entry stands for the command: its action is known and its prototype is read. -/
def ReadsCommand (entry : String × String) (signature : Command) : Prop :=
  ∃ action, (entry.2, action) ∈ Action.settings ∧
    Command.ofPrototype? entry.1 action = some signature

/-- The entry stands for the environment: its action is one of two and its prototype is read. -/
def ReadsEnvironment (entry : String × String) (signature : Environment) : Prop :=
  ∃ action, (entry.2, action) ∈ [("default", Action.default), ("ignore", Action.ignore)] ∧
    Environment.ofPrototype? entry.1 action = some signature

/-- The environment is read from the prototype and hidden. -/
def ReadsIgnored (prototype : String) (signature : Environment) : Prop :=
  Environment.ofPrototype? prototype .ignore = some signature

/-- An entry stands for a command if its action is known and its prototype can be read. -/
theorem command?_eq_some_iff {entry : String × String} {signature : Command} :
    command? entry = some signature ↔ ReadsCommand entry signature := by
  simp only [command?, Option.bind_eq_some_iff, Action.ofSetting?_eq_some_iff, ReadsCommand]

/-- An entry stands for an environment if its action suits one and its prototype can be read. -/
theorem environment?_eq_some_iff {entry : String × String} {signature : Environment} :
    environment? entry = some signature ↔ ReadsEnvironment entry signature := by
  have hsuits (action : Action) :
      ((entry.2, action) ∈ Action.settings ∧ suitsEnvironment action) ↔
        (entry.2, action) ∈ [("default", Action.default), ("ignore", Action.ignore)] := by
    cases action <;> simp [Action.settings, suitsEnvironment]
  simp only [environment?, Option.bind_eq_some_iff, Option.filter_eq_some_iff,
    Action.ofSetting?_eq_some_iff, hsuits, ReadsEnvironment]

/-- What is reported of a command that is skipped. -/
def commandReport (entry : String × String) : List Event := [.unusableCommand entry.1 entry.2]

/-- What is reported of an environment that is skipped. -/
def environmentReport (entry : String × String) : List Event :=
  [.unusableEnvironment entry.1 entry.2]

/-- The added commands. -/
def addedCommands (s : Settings) : Supply Command :=
  .entries command? commandReport s.commands.toList

/-- The added environments. -/
def addedEnvironments (s : Settings) : Supply Environment :=
  .entries environment? environmentReport s.environments.toList

/-- The ignored environments. -/
def ignored (s : Settings) : Supply Environment :=
  .entries (Environment.ofPrototype? · .ignore) (fun _ => []) s.ignoredEnvironments

/-- Builds the registry: signatures are filed behind the built-in ones as they are read, commands
    before environments, and in the end the size of the registry is reported. -/
def build (s : Settings) : Index × List Event :=
  let (filed, log) := s.addedCommands.drain Index.addCommand .builtin []
  let (filed, log) := (s.addedEnvironments.chain s.ignored).drain Index.addEnvironment filed log
  (filed, log ++ [.registryBuilt filed.commandCount filed.environmentCount])

/-- Ignored environments report nothing. -/
theorem reports_ignored (s : Settings) : s.ignored.reports = [] :=
  List.flatMap_eq_nil_iff.mpr fun _ _ => rfl

/-- The reports are those of commands and those of environments, and the size of the registry
    last. -/
theorem registryEvents_eq (s : Settings) :
    s.registryEvents = s.addedCommands.reports ++ s.addedEnvironments.reports ++
      [.registryBuilt s.registry.commandCount s.registry.environmentCount] := by
  rw [registryEvents, List.map_eq_flatMap, List.map_eq_flatMap]
  rfl

/-- The building fills an index of the registry and makes the reports of the settings. -/
theorem build_eq (s : Settings) :
    ∃ index : Index, index.Represents s.registry ∧ s.build = (index, s.registryEvents) := by
  have hrep := (Index.represents_builtin.addCommands s.addedCommands.signatures).addEnvironments
    (s.addedEnvironments.chain s.ignored).signatures
  have hregistry : Registry.builtin.extend s.addedCommands.signatures
      (s.addedEnvironments.chain s.ignored).signatures = s.registry := rfl
  rw [← Registry.extend_eq_foldl, hregistry] at hrep
  refine ⟨_, hrep, ?_⟩
  -- both supplies are read to their ends, and the index counts what the registry counts
  simp only [build, Supply.drain_eq]
  rw [hrep.commandCount_eq, hrep.environmentCount_eq, registryEvents_eq, Supply.reports,
    reports_ignored, List.nil_append, List.append_nil]

/-- What the entries of settings come to. -/
structure Account (s : Settings) where
  /-- The entries of the commands. -/
  commandEntries : List (String × String)
  /-- All of them are there, in their order. -/
  commandEntries_all : Enumerates s.commands commandEntries
  /-- The commands of the usable entries. -/
  commands : List Command
  /-- What is reported of the other ones. -/
  commandWarnings : List Event
  /-- Each entry is usable or reported. -/
  commands_sifted : Sifted ReadsCommand commandReport commandEntries commands commandWarnings
  /-- The entries of the environments. -/
  environmentEntries : List (String × String)
  /-- All of them are there, in their order. -/
  environmentEntries_all : Enumerates s.environments environmentEntries
  /-- The environments of the usable entries. -/
  environments : List Environment
  /-- What is reported of the other ones. -/
  environmentWarnings : List Event
  /-- Each entry is usable or reported. -/
  environments_sifted :
    Sifted ReadsEnvironment environmentReport environmentEntries environments environmentWarnings
  /-- The environments that are ignored. -/
  ignored : List Environment
  /-- Each of them is readable or skipped silently. -/
  ignored_sifted : Sifted ReadsIgnored (fun _ => []) s.ignoredEnvironments ignored []

/-- The account of what is read. -/
def account (s : Settings) : Account s where
  commandEntries := s.commands.toList
  commandEntries_all := enumerates_toList s.commands
  commands := s.addedCommands.signatures
  commandWarnings := s.addedCommands.reports
  commands_sifted := .of_read (fun _ _ => command?_eq_some_iff) _
  environmentEntries := s.environments.toList
  environmentEntries_all := enumerates_toList s.environments
  environments := s.addedEnvironments.signatures
  environmentWarnings := s.addedEnvironments.reports
  environments_sifted := .of_read (fun _ _ => environment?_eq_some_iff) _
  ignored := s.ignored.signatures
  ignored_sifted := by
    have hsifted : Sifted ReadsIgnored (fun _ => []) s.ignoredEnvironments s.ignored.signatures
        s.ignored.reports := .of_read (fun _ _ => Iff.rfl) _
    rwa [reports_ignored] at hsifted

/-- Settings come to a registry of the built-in signatures and those of the usable entries: all
    entries are read in order, each is filed or reported once, and the sizes that are reported in
    the end are those that this comes to. -/
theorem registry_accounts_for_entries (s : Settings) :
    ∃ account : Account s,
      (∃ index : Index, index.Represents s.registry ∧ s.build = (index, s.registryEvents)) ∧
      s.registry =
        Registry.builtin.extend account.commands (account.environments ++ account.ignored) ∧
      s.registryEvents = account.commandWarnings ++ account.environmentWarnings ++
        [.registryBuilt s.registry.commandCount s.registry.environmentCount] ∧
      s.registry.commandCount + account.commandWarnings.length =
        Registry.builtin.commandCount + s.commands.size ∧
      s.registry.environmentCount + account.environmentWarnings.length =
        Registry.builtin.environmentCount + s.environments.size + account.ignored.length := by
  have hregistry : s.registry = Registry.builtin.extend s.account.commands
      (s.account.environments ++ s.account.ignored) := rfl
  refine ⟨s.account, s.build_eq, hregistry, s.registryEvents_eq, ?_, ?_⟩
  · rw [hregistry, Registry.commandCount_extend, Nat.add_assoc,
      s.account.commands_sifted.length_add_length fun _ => rfl]
    exact congrArg _ Std.TreeMap.length_toList
  -- every entry is either filed or reported
  · have hlength := s.account.environments_sifted.length_add_length fun _ => rfl
    have hsize : s.account.environmentEntries.length = s.environments.size :=
      Std.TreeMap.length_toList
    rw [hregistry, Registry.environmentCount_extend, List.length_append]
    omega

end Settings

end ProseLens
