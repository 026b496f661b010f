import Mathlib.Algebra.BigOperators.Group.List.Basic
import Std.Data.HashMap
import ProseLens.Proofs.AnnotatedText.Calls
import ProseLens.Proofs.Signature.Longest
import ProseLens.Settings

/-!
# What is filed is what is found

A registry is filled by filings, each of one signature or of several.  What it holds under a name is
what the filings bring under that name, in their order, so that the filings of other names do not
matter (`commands_fileAll`, `environments_fileAll`).

An `Index` keeps the same signatures in a hash table of groups, one for each name, and need not
look through all of them.  It represents a registry as long as every filing is done to both
(`Index.Represents.fileAll`).

Of the commands with the same name and the same arguments only the one that was filed last is ever
found.  Settings are filed behind the built-in signatures, and no two entries of them have the same
name and the same arguments, so that an entry overrides what is built in.

## Key results

- `Registry.commands_fileAll`, `Registry.environments_fileAll`: what is held under a name
- `Index.Represents.fileAll`: groups in a hash table hold the same
- `Registry.exists_last_of_commandAt?`: the last of its kind is found
- `Settings.eq_of_commandAt?`: entries override what is built in
-/

namespace ProseLens

namespace Signature

/-- Something that is done to fill a registry. -/
inductive Filing where
  /-- One command is filed. -/
  | command (signature : Command)
  /-- One environment is filed. -/
  | environment (signature : Environment)
  /-- Commands and environments are filed, each in the order given. -/
  | extension (commands : List Command) (environments : List Environment)

namespace Filing

/-- The commands that a filing brings. -/
def commands : Filing → List Command
  | command signature => [signature]
  | environment _ => []
  | extension commands _ => commands

/-- The environments that a filing brings. -/
def environments : Filing → List Environment
  | command _ => []
  | environment signature => [signature]
  | extension _ environments => environments

/-- Under each name both sequences of filings bring the same in the same order. -/
structure SameByName (first second : List Filing) : Prop where
  commands_eq : ∀ name, (first.flatMap commands).filter (·.name == name) =
    (second.flatMap commands).filter (·.name == name)
  environments_eq : ∀ opening, (first.flatMap environments).filter (·.opening.name == opening) =
    (second.flatMap environments).filter (·.opening.name == opening)

end Filing

namespace Registry

/-- Does one filing. -/
def file (r : Registry) : Filing → Registry
  | .command signature => r.addCommand signature
  | .environment signature => r.addEnvironment signature
  | .extension commands environments => r.extend commands environments

/-- Does filings one after the other. -/
def fileAll (r : Registry) (filings : List Filing) : Registry := filings.foldl file r

/-- Filing is extending by what is filed. -/
theorem file_eq_extend (r : Registry) (filing : Filing) :
    r.file filing = r.extend filing.commands filing.environments := by
  cases filing with
  | command signature => exact r.addCommand_eq_extend signature
  | environment signature => exact r.addEnvironment_eq_extend signature
  | extension commands environments => rfl

/-- Filings one after the other are one extension by all that they bring. -/
theorem fileAll_eq_extend (r : Registry) (filings : List Filing) :
    r.fileAll filings =
      r.extend (filings.flatMap Filing.commands) (filings.flatMap Filing.environments) := by
  induction filings generalizing r with
  | nil => simp [fileAll, extend]
  | cons filing filings ih =>
    show (r.file filing).fileAll filings = _
    rw [ih, file_eq_extend]
    simp [extend]

/-- Under each name, the filed commands come in order behind those that are there. -/
theorem commands_fileAll (r : Registry) (filings : List Filing) (name : String) :
    (r.fileAll filings).commands name =
      r.commands name ++ (filings.flatMap Filing.commands).filter (·.name == name) := by
  rw [fileAll_eq_extend, commands_extend]

/-- Under each opening, the filed environments come in order behind those that are there. -/
theorem environments_fileAll (r : Registry) (filings : List Filing) (opening : String) :
    (r.fileAll filings).environments opening = r.environments opening ++
      (filings.flatMap Filing.environments).filter (·.opening.name == opening) := by
  rw [fileAll_eq_extend, environments_extend]

/-- Every filed command counts. -/
theorem commandCount_fileAll (r : Registry) (filings : List Filing) :
    (r.fileAll filings).commandCount =
      r.commandCount + (filings.flatMap Filing.commands).length := by
  rw [fileAll_eq_extend, commandCount_extend]

/-- Every filed environment counts. -/
theorem environmentCount_fileAll (r : Registry) (filings : List Filing) :
    (r.fileAll filings).environmentCount =
      r.environmentCount + (filings.flatMap Filing.environments).length := by
  rw [fileAll_eq_extend, environmentCount_extend]

/-- Both registries hold the same under each name. -/
structure Alike (r r' : Registry) : Prop where
  commands_eq : ∀ name, r.commands name = r'.commands name
  environments_eq : ∀ opening, r.environments opening = r'.environments opening

/-- Filings that bring the same under each name are as good as each other. -/
theorem alike_fileAll (r : Registry) {first second : List Filing}
    (h : Filing.SameByName first second) : (r.fileAll first).Alike (r.fileAll second) where
  commands_eq name := by rw [commands_fileAll, commands_fileAll, h.commands_eq]
  environments_eq opening := by rw [environments_fileAll, environments_fileAll, h.environments_eq]

namespace Alike

variable {r r' : Registry} (h : r.Alike r')
include h

/-- Registries that are alike find the same command. -/
theorem command?_eq (name : String) (cs : List Char) :
    r.command? name cs = r'.command? name cs := by
  rw [command?, command?, h.commands_eq]

/-- Registries that are alike find the same environment. -/
theorem environment?_eq (opening : String) (cs : List Char) :
    r.environment? opening cs = r'.environment? opening cs := by
  rw [environment?, environment?, h.environments_eq]

/-- Registries that are alike find the same command at every offset. -/
theorem commandAt?_eq (name source : String) (offset : Nat) :
    r.commandAt? name source offset = r'.commandAt? name source offset := by
  rw [commandAt?, commandAt?, h.commands_eq]

/-- Registries that are alike find the same environment at every offset. -/
theorem environmentAt?_eq (opening source : String) (offset : Nat) :
    r.environmentAt? opening source offset = r'.environmentAt? opening source offset := by
  rw [environmentAt?, environmentAt?, h.environments_eq]

end Alike

/-- Signatures filed one by one are an extension. -/
theorem extend_eq_foldl (r : Registry) (commands : List Command)
    (environments : List Environment) :
    r.extend commands environments =
      environments.foldl addEnvironment (commands.foldl addCommand r) := by
  -- the two lists are filed in separate tables, so that each fold is taken on its own
  have hcommands (r : Registry) : commands.foldl addCommand r = r.extend commands [] := by
    induction commands generalizing r with
    | nil => simp [extend]
    | cons signature commands ih => rw [List.foldl_cons, ih]; simp [addCommand, extend]
  have henvironments (r : Registry) :
      environments.foldl addEnvironment r = r.extend [] environments := by
    induction environments generalizing r with
    | nil => simp [extend]
    | cons signature environments ih => rw [List.foldl_cons, ih]; simp [addEnvironment, extend]
  rw [hcommands, henvironments]
  simp [extend]

end Registry

/-! ## Groups in a hash table -/

namespace Index

variable {α : Type}

/-- Adds to the group of a name, which is opened if there is none. -/
def put (groups : Std.HashMap String (List α)) (name : String) (signature : α) :
    Std.HashMap String (List α) :=
  groups.insert name (groups.getD name [] ++ [signature])

/-- The number of signatures in all groups. -/
def total (groups : Std.HashMap String (List α)) : Nat :=
  (groups.toList.map fun entry => entry.2.length).sum

/-- Putting a signature under a name changes the group of that name only. -/
theorem getD_put (groups : Std.HashMap String (List α)) (name : String) (signature : α)
    (other : String) :
    (put groups name signature).getD other [] =
      groups.getD other [] ++ if name == other then [signature] else [] := by
  rw [put, Std.HashMap.getD_insert]
  split
  · next heq => rw [eq_of_beq heq]
  · rw [List.append_nil]

/-- The total is the size of one group and of all others. -/
theorem total_insert (groups : Std.HashMap String (List α)) (name : String) (group : List α) :
    total (groups.insert name group) = group.length +
      ((groups.toList.filter fun entry => decide ¬ (name == entry.1) = true).map
        fun entry => entry.2.length).sum := by
  have hperm := (Std.HashMap.toList_insert_perm (m := groups) (k := name) (v := group)).map
    fun entry => entry.2.length
  rw [total, hperm.sum_eq, List.map_cons, List.sum_cons]

/-- The number of signatures is that of one group and that of all others. -/
theorem total_eq (groups : Std.HashMap String (List α)) (name : String) :
    total groups = (groups.getD name []).length +
      ((groups.toList.filter fun entry => decide ¬ (name == entry.1) = true).map
        fun entry => entry.2.length).sum := by
  by_cases hmem : name ∈ groups
  · -- putting a group back where it is changes nothing
    have hsame : (groups.insert name (groups.getD name [])).Equiv groups := by
      refine Std.HashMap.Equiv.of_forall_getElem?_eq fun other => ?_
      rw [Std.HashMap.getElem?_insert]
      split
      · next heq =>
        rw [← eq_of_beq heq, Std.HashMap.getD_eq_getD_getElem?,
          Std.HashMap.getElem?_eq_some_getElem hmem]
        rfl
      · rfl
    rw [← total_insert, total, total, (hsame.toList_perm.map _).sum_eq]
  · have hall : (groups.toList.filter fun entry => decide ¬ (name == entry.1) = true) =
        groups.toList := by
      rw [List.filter_eq_self]
      rintro ⟨other, group⟩ hentry
      have hother := Std.HashMap.mem_toList_iff_getElem?_eq_some.mp hentry
      simp only [decide_eq_true_eq]
      intro heq
      rw [← eq_of_beq heq, Std.HashMap.getElem?_eq_none hmem] at hother
      cases hother
    rw [hall, Std.HashMap.getD_eq_fallback hmem, List.length_nil, Nat.zero_add]
    rfl

/-- Putting a signature adds one to their number. -/
theorem total_put (groups : Std.HashMap String (List α)) (name : String) (signature : α) :
    total (put groups name signature) = total groups + 1 := by
  rw [put, total_insert, total_eq groups name, List.length_append, List.length_singleton]
  omega

end Index

/-- Signatures in groups by name. -/
structure Index where
  /-- The commands of each name. -/
  commandGroups : Std.HashMap String (List Command) := {}
  /-- The environments of each opening. -/
  environmentGroups : Std.HashMap String (List Environment) := {}

namespace Index

/-- The commands of a name, oldest first. -/
def commands (i : Index) (name : String) : List Command := i.commandGroups.getD name []

/-- The environments with an opening of this name, oldest first. -/
def environments (i : Index) (opening : String) : List Environment :=
  i.environmentGroups.getD opening []

/-- The number of commands. -/
def commandCount (i : Index) : Nat := total i.commandGroups

/-- The number of environments. -/
def environmentCount (i : Index) : Nat := total i.environmentGroups

/-- Adds a command to the group of its name. -/
def addCommand (i : Index) (signature : Command) : Index :=
  { i with commandGroups := put i.commandGroups signature.name signature }

/-- Adds an environment to the group of its opening. -/
def addEnvironment (i : Index) (signature : Environment) : Index :=
  { i with environmentGroups := put i.environmentGroups signature.opening.name signature }

/-- Does one filing, signature by signature. -/
def file (i : Index) : Filing → Index
  | .command signature => i.addCommand signature
  | .environment signature => i.addEnvironment signature
  | .extension commands environments =>
    environments.foldl addEnvironment (commands.foldl addCommand i)

/-- Does filings one after the other. -/
def fileAll (i : Index) (filings : List Filing) : Index := filings.foldl file i

/-- The index holds what the registry holds. -/
structure Represents (i : Index) (r : Registry) : Prop where
  commands_eq : ∀ name, i.commands name = r.commands name
  environments_eq : ∀ opening, i.environments opening = r.environments opening
  commandCount_eq : i.commandCount = r.commandCount
  environmentCount_eq : i.environmentCount = r.environmentCount

namespace Represents

variable {i : Index} {r : Registry}

/-- The empty index represents the empty registry. -/
theorem empty : Represents {} .empty where
  commands_eq _ := Std.HashMap.getD_empty
  environments_eq _ := Std.HashMap.getD_empty
  commandCount_eq := by
    show (List.map _ (Std.HashMap.toList ∅)).sum = 0
    rw [Std.HashMap.toList_empty]
    rfl
  environmentCount_eq := by
    show (List.map _ (Std.HashMap.toList ∅)).sum = 0
    rw [Std.HashMap.toList_empty]
    rfl

/-- Adding a command to both keeps the representation. -/
theorem addCommand (h : i.Represents r) (signature : Command) :
    (i.addCommand signature).Represents (r.addCommand signature) where
  commands_eq name := by
    rw [r.addCommand_eq_extend, Registry.commands_extend, ← h.commands_eq, List.filter_cons,
      List.filter_nil]
    -- the group of one name grows, the others are as before
    exact getD_put i.commandGroups signature.name signature name
  environments_eq := h.environments_eq
  commandCount_eq := by
    have hcount : total i.commandGroups = r.commandCount := h.commandCount_eq
    rw [r.addCommand_eq_extend, Registry.commandCount_extend, ← hcount]
    exact total_put i.commandGroups signature.name signature
  environmentCount_eq := h.environmentCount_eq

/-- Adding an environment to both keeps the representation. -/
theorem addEnvironment (h : i.Represents r) (signature : Environment) :
    (i.addEnvironment signature).Represents (r.addEnvironment signature) where
  commands_eq := h.commands_eq
  environments_eq opening := by
    rw [r.addEnvironment_eq_extend, Registry.environments_extend, ← h.environments_eq,
      List.filter_cons, List.filter_nil]
    exact getD_put i.environmentGroups signature.opening.name signature opening
  commandCount_eq := h.commandCount_eq
  environmentCount_eq := by
    have hcount : total i.environmentGroups = r.environmentCount := h.environmentCount_eq
    rw [r.addEnvironment_eq_extend, Registry.environmentCount_extend, ← hcount]
    exact total_put i.environmentGroups signature.opening.name signature

/-- Adding commands to both keeps the representation. -/
theorem addCommands (h : i.Represents r) (commands : List Command) :
    (commands.foldl Index.addCommand i).Represents (commands.foldl Registry.addCommand r) := by
  induction commands generalizing i r with
  | nil => exact h
  | cons signature commands ih => exact ih (h.addCommand signature)

/-- Adding environments to both keeps the representation. -/
theorem addEnvironments (h : i.Represents r) (environments : List Environment) :
    (environments.foldl Index.addEnvironment i).Represents
      (environments.foldl Registry.addEnvironment r) := by
  induction environments generalizing i r with
  | nil => exact h
  | cons signature environments ih => exact ih (h.addEnvironment signature)

/-- Filing in both keeps the representation. -/
theorem file (h : i.Represents r) (filing : Filing) :
    (i.file filing).Represents (r.file filing) := by
  cases filing with
  | command signature => exact h.addCommand signature
  | environment signature => exact h.addEnvironment signature
  | extension commands environments =>
    rw [Registry.file, Registry.extend_eq_foldl]
    exact (h.addCommands commands).addEnvironments environments

/-- Whatever is filed in both, the index goes on to represent the registry. -/
theorem fileAll (h : i.Represents r) (filings : List Filing) :
    (i.fileAll filings).Represents (r.fileAll filings) := by
  induction filings generalizing i r with
  | nil => exact h
  | cons filing filings ih => exact ih (h.file filing)

end Represents

/-- For every registry there is an index. -/
theorem exists_represents (r : Registry) : ∃ i : Index, i.Represents r := by
  have h := Represents.empty.fileAll [.extension r.filedCommands r.filedEnvironments]
  have hfile : Registry.empty.fileAll [.extension r.filedCommands r.filedEnvironments] = r := by
    simp [Registry.fileAll, Registry.file, Registry.extend, Registry.empty]
  rw [hfile] at h
  exact ⟨_, h⟩

end Index

/-! ## The last of its kind -/

namespace Registry

variable {r : Registry} {name source : String} {offset : Nat}

/-- The command that is found has the name that was asked for. -/
theorem name_eq_of_commandAt? {found : Located Command}
    (h : r.commandAt? name source offset = some found) : found.signature.name = name := by
  obtain ⟨i, hmem, -⟩ := exists_index_of_longestAt? h
  simpa using (List.mem_filter.mp (List.mem_of_getElem? hmem)).2

/-- Where a command that was filed matches, one that begins with its arguments is found. -/
theorem exists_commandAt?_of_matchEnd? {c : Command} (hc : c ∈ r.filedCommands) {stop : Nat}
    (hstop : c.matchEnd? source offset = some stop) :
    ∃ found, r.commandAt? c.name source offset = some found ∧
      c.arguments <+: found.signature.arguments := by
  have hmem : c ∈ r.commands c.name := List.mem_filter.mpr ⟨hc, by simp⟩
  cases hfound : r.commandAt? c.name source offset with
  | none =>
    -- a signature that matches is among the candidates, so that the longest is not missing
    have hnone : (id c : Command).matchEnd? source offset = none :=
      longestAt?_eq_none_iff.mp hfound c hmem
    rw [id, hstop] at hnone
    cases hnone
  | some found =>
    have hname := name_eq_of_commandAt? hfound
    exact ⟨found, rfl, (arguments_prefix_of_longestAt? hfound hmem hname.symm hstop).1⟩

/-- The command that is found was filed behind all others with its name and its arguments. -/
theorem exists_last_of_commandAt? {found : Located Command}
    (h : r.commandAt? name source offset = some found) :
    ∃ earlier later, r.filedCommands = earlier ++ found.signature :: later ∧
      ∀ c ∈ later,
        ¬ (c.name = found.signature.name ∧ c.arguments = found.signature.arguments) := by
  have hfound := name_eq_of_commandAt? h
  cases hdrop : Text.dropBytes? source.toList offset with
  | none =>
    rw [commandAt?, longestAt?_eq_none hdrop] at h
    cases h
  | some cs =>
    rw [commandAt?, longestAt?_eq_map hdrop, Option.map_eq_some_iff] at h
    obtain ⟨best, hbest, rfl⟩ := h
    obtain ⟨front, back, hsplit, hlength, -, hback⟩ := isBest_of_longest? hbest
    -- the commands of the name, and among all commands those around the best
    obtain ⟨first, rest, hfiled, -, hrest⟩ := List.filter_eq_append_iff.mp hsplit
    obtain ⟨others, later, rfl, -, -, hlater⟩ := List.filter_eq_cons_iff.mp hrest
    refine ⟨first ++ others, later, by simp [hfiled], ?_⟩
    rintro c hc ⟨hsame, harguments⟩
    have hc' : c ∈ back := by
      rw [← hlater, List.mem_filter]
      exact ⟨hc, beq_iff_eq.mpr (hsame.trans hfound)⟩
    have hmatch : (id c : Command).length? cs = some best.length := by
      rw [← hlength]
      exact Command.length?_congr hsame harguments cs
    exact lt_irrefl _ (hback c hc' _ hmatch)

end Registry

end Signature

/-! ## Entries of the settings -/

namespace Settings

open Signature

/-- Entries with the same name and the same arguments are one entry. -/
theorem eq_of_command? {settings : Settings} {entry entry' : String × String}
    {c c' : Signature.Command} (hentry : entry ∈ settings.commands.toList)
    (hentry' : entry' ∈ settings.commands.toList) (hc : command? entry = some c)
    (hc' : command? entry' = some c') (hname : c.name = c'.name)
    (harguments : c.arguments = c'.arguments) : c = c' := by
  obtain ⟨action, haction, hread⟩ := Option.bind_eq_some_iff.mp hc
  obtain ⟨action', haction', hread'⟩ := Option.bind_eq_some_iff.mp hc'
  have hkey : entry.1 = entry'.1 := by
    rw [← Command.prototype_of_ofPrototype? hread, ← Command.prototype_of_ofPrototype? hread',
      Command.prototype, Command.prototype, hname, harguments]
  -- a prototype is set once
  have hvalue := Std.TreeMap.mem_toList_iff_getElem?_eq_some.mp hentry
  have hvalue' := Std.TreeMap.mem_toList_iff_getElem?_eq_some.mp hentry'
  rw [hkey, hvalue'] at hvalue
  have hsame : entry = entry' := Prod.ext hkey (Option.some.inj hvalue).symm
  rw [hsame, hc'] at hc
  exact (Option.some.inj hc).symm

/-- A command of the settings is found wherever one with its name and arguments is found. -/
theorem eq_of_commandAt? {settings : Settings} {entry : String × String} {c : Signature.Command}
    (hentry : entry ∈ settings.commands.toList) (hc : command? entry = some c) {source : String}
    {offset : Nat} {found : Located Signature.Command}
    (hfound : settings.registry.commandAt? c.name source offset = some found)
    (harguments : found.signature.arguments = c.arguments) : found.signature = c := by
  have hname := Registry.name_eq_of_commandAt? hfound
  obtain ⟨earlier, later, hfiled, hlater⟩ := Registry.exists_last_of_commandAt? hfound
  have hmem : c ∈ settings.commands.toList.filterMap command? :=
    List.mem_filterMap.mpr ⟨entry, hentry, hc⟩
  have hsplit : Registry.builtin.filedCommands ++ settings.commands.toList.filterMap command? =
      earlier ++ found.signature :: later := hfiled
  rcases append_eq_append_cons_cases hsplit with ⟨more, -, rfl⟩ | ⟨more, -, hset⟩
  · -- behind a built-in command the entry itself would be filed
    exact absurd ⟨hname.symm, harguments.symm⟩ (hlater c (List.mem_append_right _ hmem))
  · have hfound' : found.signature ∈ settings.commands.toList.filterMap command? := by
      rw [hset]
      exact List.mem_append_right _ List.mem_cons_self
    obtain ⟨entry', hentry', hc'⟩ := List.mem_filterMap.mp hfound'
    exact eq_of_command? hentry' hentry hc' hc hname harguments

/-- Where a command of the settings matches, it is found itself unless there is one that begins with
    its arguments and has more of them. -/
theorem exists_commandAt?_of_matchEnd? {settings : Settings} {entry : String × String}
    {c : Signature.Command} (hentry : entry ∈ settings.commands.toList)
    (hc : command? entry = some c) {source : String} {offset stop : Nat}
    (hstop : c.matchEnd? source offset = some stop) :
    ∃ found, settings.registry.commandAt? c.name source offset = some found ∧
      c.arguments <+: found.signature.arguments ∧
      (found.signature.arguments = c.arguments → found.signature = c) := by
  have hmem : c ∈ settings.registry.filedCommands :=
    List.mem_append_right _ (List.mem_filterMap.mpr ⟨entry, hentry, hc⟩)
  obtain ⟨found, hfound, hbegins⟩ := Registry.exists_commandAt?_of_matchEnd? hmem hstop
  exact ⟨found, hfound, hbegins, eq_of_commandAt? hentry hc hfound⟩

end Settings

end ProseLens
