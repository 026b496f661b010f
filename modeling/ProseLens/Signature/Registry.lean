import ProseLens.Signature.Match

/-! # The signature registry

The registry holds the signatures that an extractor knows, in the order in which they were filed.
It is asked by name: for commands by the name of the command, for environments by the name of the
command that opens them.

Main statements: what is filed under a name after an extension is what was there before, followed by
the new signatures of that name (`commands_extend`, `environments_extend`), and every signature that
is filed counts (`commandCount_extend`, `environmentCount_extend`). -/

namespace ProseLens.Signature

/-- The signatures that an extractor knows. -/
structure Registry where
  /-- The commands in the order of filing. -/
  filedCommands : List Command := []
  /-- The environments in the order of filing. -/
  filedEnvironments : List Environment := []
  deriving DecidableEq, Repr, Inhabited

namespace Registry

/-- The registry without signatures. -/
def empty : Registry := {}

/-- Files a command after those that are there. -/
def addCommand (r : Registry) (signature : Command) : Registry :=
  { r with filedCommands := r.filedCommands ++ [signature] }

/-- Files an environment after those that are there. -/
def addEnvironment (r : Registry) (signature : Environment) : Registry :=
  { r with filedEnvironments := r.filedEnvironments ++ [signature] }

/-- Files commands and environments, each in the order given. -/
def extend (r : Registry) (commands : List Command) (environments : List Environment) :
    Registry where
  filedCommands := r.filedCommands ++ commands
  filedEnvironments := r.filedEnvironments ++ environments

/-- The commands of a name, oldest first. -/
def commands (r : Registry) (name : String) : List Command :=
  r.filedCommands.filter (·.name == name)

/-- The environments with an opening of this name, oldest first. -/
def environments (r : Registry) (opening : String) : List Environment :=
  r.filedEnvironments.filter (·.opening.name == opening)

/-- The number of commands. -/
def commandCount (r : Registry) : Nat := r.filedCommands.length

/-- The number of environments. -/
def environmentCount (r : Registry) : Nat := r.filedEnvironments.length

/-- The best match among the commands of a name at the start of a text. -/
def command? (r : Registry) (name : String) (cs : List Char) : Option (Match Command) :=
  longest? id (fun _ => false) (r.commands name) cs

/-- The best match among the environments of an opening at the start of a text. -/
def environment? (r : Registry) (opening : String) (cs : List Char) : Option (Match Environment) :=
  longest? Environment.opening Environment.ignoresAllArguments (r.environments opening) cs

/-- The best match among the commands of a name at byte `offset` of `source`. -/
def commandAt? (r : Registry) (name source : String) (offset : Nat) : Option (Located Command) :=
  longestAt? id (fun _ => false) (r.commands name) source offset

/-- The best match among the environments of an opening at byte `offset` of `source`. -/
def environmentAt? (r : Registry) (opening source : String) (offset : Nat) :
    Option (Located Environment) :=
  longestAt? Environment.opening Environment.ignoresAllArguments (r.environments opening) source
    offset

/-- A command that matches takes at least its name. -/
theorem length_le_of_command?_eq_some {r : Registry} {name : String} {cs : List Char}
    {found : Match Command} (h : r.command? name cs = some found) : name.length ≤ found.length := by
  obtain ⟨hmem, hlength⟩ := mem_of_longest?_eq_some h
  have hname : found.signature.name = name := by
    simpa using (List.mem_filter.mp hmem).2
  rw [← hname]
  exact Command.length_name_le hlength

/-- An environment that matches takes at least its opening. -/
theorem length_le_of_environment?_eq_some {r : Registry} {opening : String} {cs : List Char}
    {found : Match Environment} (h : r.environment? opening cs = some found) :
    opening.length ≤ found.length := by
  obtain ⟨hmem, hlength⟩ := mem_of_longest?_eq_some h
  have hname : found.signature.opening.name = opening := by
    simpa using (List.mem_filter.mp hmem).2
  rw [← hname]
  exact Command.length_name_le hlength

/-! ## What extensions file -/

/-- Adding one command is extending by that command. -/
theorem addCommand_eq_extend (r : Registry) (signature : Command) :
    r.addCommand signature = r.extend [signature] [] := by
  simp [addCommand, extend]

/-- Adding one environment is extending by that environment. -/
theorem addEnvironment_eq_extend (r : Registry) (signature : Environment) :
    r.addEnvironment signature = r.extend [] [signature] := by
  simp [addEnvironment, extend]

/-- Under each name, the new commands are filed behind those that are there. -/
theorem commands_extend (r : Registry) (commands : List Command)
    (environments : List Environment) (name : String) :
    (r.extend commands environments).commands name =
      r.commands name ++ commands.filter (·.name == name) := by
  simp [Registry.commands, extend]

/-- Under each opening, the new environments are filed behind those that are there. -/
theorem environments_extend (r : Registry) (commands : List Command)
    (environments : List Environment) (opening : String) :
    (r.extend commands environments).environments opening =
      r.environments opening ++ environments.filter (·.opening.name == opening) := by
  simp [Registry.environments, extend]

/-- Every new command counts, also one with a name that is there already. -/
theorem commandCount_extend (r : Registry) (commands : List Command)
    (environments : List Environment) :
    (r.extend commands environments).commandCount = r.commandCount + commands.length := by
  simp [commandCount, extend]

/-- Every new environment counts, also one with an opening that is there already. -/
theorem environmentCount_extend (r : Registry) (commands : List Command)
    (environments : List Environment) :
    (r.extend commands environments).environmentCount =
      r.environmentCount + environments.length := by
  simp [environmentCount, extend]

end Registry

end ProseLens.Signature
