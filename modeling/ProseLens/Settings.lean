import Std.Data.TreeMap
import ProseLens.Event
import ProseLens.Options
import ProseLens.Signature.Builtin

/-! # Settings

Settings name the options and add signatures to the built-in ones.  Each added command or
environment is a prototype with the name of an action; entries are taken in the order of their
prototypes.  An entry that cannot be used is skipped and reported. -/

namespace ProseLens

open Signature (Action Command Environment Registry)

/-- What a host can set. -/
structure Settings where
  /-- The options. -/
  options : Options := {}
  /-- Action names by command prototype. -/
  commands : Std.TreeMap String String := {}
  /-- Action names by environment prototype. -/
  environments : Std.TreeMap String String := {}
  /-- Environments whose bodies are hidden. -/
  ignoredEnvironments : List String := []

namespace Settings

/-- Whether nothing is set. -/
def isDefault (s : Settings) : Bool :=
  s.options == {} && s.commands.isEmpty && s.environments.isEmpty && s.ignoredEnvironments.isEmpty

/-- The command that an entry stands for, if its action is known and its prototype can be read. -/
def command? (entry : String × String) : Option Command :=
  (Action.ofSetting? entry.2).bind (Command.ofPrototype? entry.1)

/-- Whether an action suits an environment. -/
def suitsEnvironment : Action → Bool
  | .default | .ignore => true
  | .placeholder _ => false

/-- The environment that an entry stands for, if its action is known and suits one, and if its
    prototype can be read. -/
def environment? (entry : String × String) : Option Environment :=
  ((Action.ofSetting? entry.2).filter suitsEnvironment).bind (Environment.ofPrototype? entry.1)

/-- The built-in signatures and after them the added ones. -/
def registry (s : Settings) : Registry :=
  Registry.builtin.extend (s.commands.toList.filterMap command?)
    (s.environments.toList.filterMap environment? ++
      s.ignoredEnvironments.filterMap (Environment.ofPrototype? · .ignore))

/-- What the building of the registry reports: the entries that cannot be used, commands before
    environments, and then the size of the registry.  Ignored environments are skipped silently. -/
def registryEvents (s : Settings) : List Event :=
  (s.commands.toList.filter fun entry => (command? entry).isNone).map
      (fun entry => .unusableCommand entry.1 entry.2) ++
    (s.environments.toList.filter fun entry => (environment? entry).isNone).map
      (fun entry => .unusableEnvironment entry.1 entry.2) ++
    [.registryBuilt s.registry.commandCount s.registry.environmentCount]

end Settings

end ProseLens
