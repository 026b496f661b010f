import ProseLens.Signature.Basic
import ProseLens.Text.Front

/-! # Prototypes

Settings write a signature as a prototype: the name, followed by an empty pair of delimiters for
each argument.  An environment may also be written by its bare name, and then swallows all
arguments after its opening.

Main statement: a command is read from its own prototype only (`Command.prototype_of_ofPrototype?`),
so that two prototypes never stand for the same name with the same arguments. -/

namespace ProseLens.Signature

/-- Takes the pairs of delimiters off the end of a text that is given last character first.  What is
    left keeps at least one character. -/
def stripPairs : (reversed : List Char) → (arguments : List Delimiter) →
    List Char × List Delimiter
  | closing :: opening :: c :: cs, arguments =>
    match Delimiter.ofPair? opening closing with
    | some d => stripPairs (c :: cs) (d :: arguments)
    | none => (closing :: opening :: c :: cs, arguments)
  | reversed, arguments => (reversed, arguments)

/-- Reads the prototype of a command.  There is none in the empty text. -/
def Command.ofPrototype? (prototype : String) (action : Action) : Option Command :=
  if prototype.isEmpty then none
  else
    let (name, arguments) := stripPairs prototype.toList.reverse []
    some ⟨String.ofList name.reverse, arguments, action⟩

/-- The prototype of a command. -/
def Command.prototype (c : Command) : String :=
  c.name ++ String.ofList (c.arguments.flatMap Delimiter.pair)

/-- Taking the pairs off a text and putting them back behind it. -/
theorem stripPairs_append (reversed : List Char) (arguments : List Delimiter) :
    (stripPairs reversed arguments).1.reverse ++
        (stripPairs reversed arguments).2.flatMap Delimiter.pair =
      reversed.reverse ++ arguments.flatMap Delimiter.pair := by
  fun_induction stripPairs reversed arguments with
  | case1 closing opening c cs arguments d hd ih =>
    rw [ih, List.flatMap_cons, Delimiter.pair_of_ofPair? hd]
    simp
  | case2 => rfl
  | case3 => rfl

/-- A command is read from its own prototype only. -/
theorem Command.prototype_of_ofPrototype? {prototype : String} {action : Action} {c : Command}
    (h : ofPrototype? prototype action = some c) : c.prototype = prototype := by
  unfold ofPrototype? at h
  split at h
  · cases h
  · obtain rfl := Option.some.inj h
    have hpairs := stripPairs_append prototype.toList.reverse []
    rw [List.reverse_reverse, List.flatMap_nil, List.append_nil] at hpairs
    rw [Command.prototype, ← String.ofList_append, hpairs, String.ofList_toList]

/-- The name of the command that opens the environment `name`. -/
def Environment.openingName (name : String) : String := "\\begin\x7b" ++ name ++ "\x7d"

/-- Reads the prototype of an environment: an opening with the name in braces, an opening with the
    name attached to it, or a bare name. -/
def Environment.ofPrototype? (prototype : String) (action : Action) : Option Environment :=
  match Text.stripFront? "\\begin\x7b".toList prototype.toList with
  | some rest =>
    if rest.contains '}' then
      (Command.ofPrototype? prototype action).map fun opening =>
        ⟨String.ofList (rest.takeWhile (· != '}')), opening, false⟩
    else none
  | none =>
    if Text.startsWith prototype.toList "\\start".toList then
      match Command.ofPrototype? prototype action with
      | none => none
      | some opening =>
        match Text.stripFront? "\\start".toList opening.name.toList with
        | none | some [] => none
        | some name => some ⟨String.ofList name, opening, false⟩
    else if prototype.isEmpty then none
    else some ⟨prototype, ⟨openingName prototype, [], action⟩, true⟩

end ProseLens.Signature
