import Mathlib.Data.List.Induction
import ProseLens.Signature.Prototype
import ProseLens.Text.Bytes

/-!
# Prototypes and what they are read as

A prototype is read by taking pairs of delimiters off its end, so that the name which is left ends
in no pair, unless there is nothing before that pair (`IsName`).  Every command with such a name is
read from its prototype, and from no other text.

The opening of an environment is the name of a command that ends in no pair, since the name of the
environment lies between the last brace and the one before it.  So an environment has the same
opening whether it is written with its arguments or by its bare name.

## Key results

- `Command.ofPrototype?_eq_some_iff`: what a prototype is read as
- `Environment.ofPrototype?_opening`, `Environment.ofPrototype?_bare`: both ways to write an
  environment
-/

namespace ProseLens.Signature

variable {cs name front : List Char} {d : Delimiter} {action : Action}

/-! ## Names -/

/-- A name that is left when all pairs are taken off: it does not end in a pair, unless it is no
    longer than one. -/
structure IsName (name : String) : Prop where
  ne_empty : name ≠ ""
  short_or_open : name.utf8ByteSize ≤ 2 ∨ ∀ d : Delimiter, ¬ d.pair <:+ name.toList

/-- A pair of delimiters has two bytes. -/
theorem Delimiter.byteLength_pair (d : Delimiter) : Text.byteLength d.pair = 2 := by
  cases d <;> rfl

/-- A text that is no longer than a pair does not end in one with something before it. -/
theorem not_append_pair_of_byteLength_le (hne : front ≠ []) (hshort : Text.byteLength cs ≤ 2) :
    cs ≠ front ++ d.pair := by
  rintro rfl
  have hpos := List.length_pos_iff.mpr hne
  have hbytes := Text.length_le_byteLength front
  rw [Text.byteLength_append, d.byteLength_pair] at hshort
  omega

/-- Names are the texts that do not end in a pair with something before it. -/
theorem isName_iff {name : String} : IsName name ↔
    name.toList ≠ [] ∧ ∀ (front : List Char) (d : Delimiter), front ≠ [] →
      name.toList ≠ front ++ d.pair := by
  constructor
  · rintro ⟨hne, hshort | hopen⟩
    · refine ⟨by simpa using hne, fun front d hfront => ?_⟩
      exact not_append_pair_of_byteLength_le hfront (by simpa using hshort)
    · refine ⟨by simpa using hne, fun front d _ hname => ?_⟩
      exact hopen d ⟨front, hname.symm⟩
  · rintro ⟨hne, hopen⟩
    refine ⟨by simpa using hne, ?_⟩
    by_cases hshort : name.utf8ByteSize ≤ 2
    · exact .inl hshort
    · right
      rintro d ⟨front, hname⟩
      refine hopen front d ?_ hname.symm
      -- the pair alone would be too short
      rintro rfl
      rw [← Text.byteLength_toList, ← hname, List.nil_append, d.byteLength_pair] at hshort
      exact hshort (Nat.le_refl 2)

/-! ## Taking pairs off -/

/-- A pair is taken off if something is left before it. -/
theorem stripPairs_pair (hne : cs ≠ []) (arguments : List Delimiter) :
    stripPairs (d.pair.reverse ++ cs) arguments = stripPairs cs (d :: arguments) := by
  obtain ⟨c, cs, rfl⟩ := List.exists_cons_of_ne_nil hne
  show stripPairs (d.closing :: d.opening :: c :: cs) arguments = _
  rw [stripPairs, Delimiter.ofPair?_opening_closing]

/-- Nothing is taken off a name. -/
theorem stripPairs_of_open (h : ∀ (front : List Char) (d : Delimiter), front ≠ [] →
      cs ≠ d.pair.reverse ++ front) (arguments : List Delimiter) :
    stripPairs cs arguments = (cs, arguments) := by
  unfold stripPairs
  split
  -- two characters at the end and a name in front of them: `h` says that they are no pair
  · next closing opening c rest =>
    split
    · next d hd =>
      have hpair := Delimiter.pair_of_ofPair? hd
      exact absurd (by rw [hpair]; rfl) (h (c :: rest) d (by simp))
    · rfl
  · rfl

/-- All pairs behind a name are taken off. -/
theorem stripPairs_pairs (hne : cs ≠ []) (arguments others : List Delimiter) :
    stripPairs ((arguments.flatMap Delimiter.pair).reverse ++ cs) others =
      stripPairs cs (arguments ++ others) := by
  induction arguments using List.reverseRecOn generalizing others with
  | nil => rfl
  | append_singleton arguments d ih =>
    have hpairs : ((arguments ++ [d]).flatMap Delimiter.pair).reverse ++ cs =
        d.pair.reverse ++ ((arguments.flatMap Delimiter.pair).reverse ++ cs) := by
      simp
    rw [hpairs, stripPairs_pair (by simp [hne]), ih, List.append_assoc]
    rfl

/-- What is left when no more pair can be taken off. -/
theorem open_stripPairs (cs : List Char) (arguments : List Delimiter) (hfront : front ≠ []) :
    (stripPairs cs arguments).1 ≠ d.pair.reverse ++ front := by
  fun_induction stripPairs cs arguments with
  | case1 closing opening c cs arguments kind hkind ih => exact ih
  -- the last two characters were no pair when the stripping stopped
  | case2 closing opening c cs arguments hnone =>
    rintro heq
    obtain ⟨e, front, rfl⟩ := List.exists_cons_of_ne_nil hfront
    have hsame : closing = d.closing ∧ opening = d.opening := by
      cases d <;> simp_all [Delimiter.pair]
    rw [hsame.1, hsame.2, Delimiter.ofPair?_opening_closing] at hnone
    cases hnone
  | case3 cs arguments hother =>
    rintro rfl
    obtain ⟨e, front, rfl⟩ := List.exists_cons_of_ne_nil hfront
    exact hother d.closing d.opening e front rfl

/-- Stripping pairs leaves something. -/
theorem stripPairs_fst_ne_nil (hne : cs ≠ []) (arguments : List Delimiter) :
    (stripPairs cs arguments).1 ≠ [] := by
  fun_induction stripPairs cs arguments with
  | case1 closing opening c cs arguments kind hkind ih => exact ih (by simp)
  | case2 => exact hne
  | case3 => exact hne

/-! ## Commands -/

/-- Every prototype but the empty one can be read. -/
theorem Command.exists_ofPrototype? {prototype : String} (hne : prototype ≠ "")
    (action : Action) : ∃ c, ofPrototype? prototype action = some c := by
  have hempty : ¬ prototype.isEmpty = true := by simpa using hne
  rw [ofPrototype?, if_neg hempty]
  exact ⟨_, rfl⟩

/-- What is read from a prototype is a name. -/
theorem Command.isName_of_ofPrototype? {prototype : String} {c : Command}
    (h : ofPrototype? prototype action = some c) : IsName c.name := by
  unfold ofPrototype? at h
  split at h
  · cases h
  · next hne =>
    obtain rfl := Option.some.inj h
    have hne' : prototype.toList.reverse ≠ [] := by simpa using hne
    rw [isName_iff, String.toList_ofList]
    refine ⟨by simpa using stripPairs_fst_ne_nil hne' [], fun front d hfront heq => ?_⟩
    -- the stripping works from the end, on the reversed prototype
    have hopen : (stripPairs prototype.toList.reverse []).1 ≠ d.pair.reverse ++ front.reverse :=
      open_stripPairs _ _ (by simpa using hfront)
    apply hopen
    rw [← List.reverse_append, ← heq, List.reverse_reverse]

/-- A command is read again from its prototype if its name is one. -/
theorem Command.ofPrototype?_prototype {c : Command} (h : IsName c.name) :
    ofPrototype? c.prototype c.action = some c := by
  rw [isName_iff] at h
  have hempty : ¬ c.prototype.isEmpty = true := by
    have hne : c.name ≠ "" := by simpa using h.1
    simp [prototype, hne]
  -- read from its end the prototype has all pairs first and then the name
  have hreverse : c.prototype.toList.reverse =
      (c.arguments.flatMap Delimiter.pair).reverse ++ c.name.toList.reverse := by
    rw [prototype, String.toList_append, String.toList_ofList, List.reverse_append]
  -- the name itself ends in no pair, so that the stripping stops where it should
  have hopen : stripPairs c.name.toList.reverse (c.arguments ++ []) =
      (c.name.toList.reverse, c.arguments ++ []) := by
    apply stripPairs_of_open
    intro front d hfront heq
    refine h.2 front.reverse d (by simpa using hfront) ?_
    rw [← List.reverse_reverse c.name.toList, heq]
    simp
  rw [ofPrototype?, if_neg hempty, hreverse, stripPairs_pairs (by simpa using h.1), hopen]
  simp

/-- A command is read from its prototype and from nothing else, if its name can be left of one. -/
theorem Command.ofPrototype?_eq_some_iff {prototype : String} {c : Command} :
    ofPrototype? prototype action = some c ↔
      c.prototype = prototype ∧ c.action = action ∧ IsName c.name := by
  constructor
  · intro h
    refine ⟨prototype_of_ofPrototype? h, ?_, isName_of_ofPrototype? h⟩
    unfold ofPrototype? at h
    split at h
    · cases h
    · obtain rfl := Option.some.inj h
      rfl
  · rintro ⟨rfl, rfl, hname⟩
    exact ofPrototype?_prototype hname

/-! ## Environments -/

namespace Environment

/-- The opening tag of an environment, as characters. -/
theorem toList_openingName (name : List Char) :
    (openingName (String.ofList name)).toList = "\\begin".toList ++ '{' :: (name ++ ['}']) := by
  rw [openingName, String.toList_append, String.toList_append, String.toList_ofList (l := name)]
  rfl

section Names

variable {name : String} (hne : name ≠ "") (hopening : '{' ∉ name.toList)
include hne hopening

/-- The opening of an environment is the name of a command. -/
theorem isName_openingName : IsName (openingName name) := by
  rw [isName_iff, ← String.ofList_toList (s := name), toList_openingName]
  refine ⟨by simp, fun front d _ heq => ?_⟩
  -- the last two characters are that of the name and the brace behind it
  obtain ⟨others, c, hname⟩ :=
    (List.eq_nil_or_concat name.toList).resolve_left (by simpa using hne)
  have hsplit : ("\\begin".toList ++ '{' :: others) ++ [c, '}'] =
      front ++ [d.opening, d.closing] := by
    rw [← show d.pair = [d.opening, d.closing] from rfl, ← heq, hname]
    simp
  have hlast := (List.append_inj' hsplit rfl).2
  simp only [List.cons.injEq, and_true] at hlast
  apply hopening
  rw [hname, hlast.1]
  cases d with
  | brace => simp [Delimiter.opening]
  | bracket => exact absurd hlast.2 (by decide)
  | parenthesis => exact absurd hlast.2 (by decide)

variable (hclosing : '}' ∉ name.toList)
include hclosing

/-- An environment is read from its opening and its arguments. -/
theorem ofPrototype?_opening (arguments : List Delimiter) (action : Action) :
    ofPrototype? (Command.prototype ⟨openingName name, arguments, action⟩) action =
      some ⟨name, ⟨openingName name, arguments, action⟩, false⟩ := by
  have hcommand : Command.ofPrototype? (Command.prototype ⟨openingName name, arguments, action⟩)
      action = some ⟨openingName name, arguments, action⟩ :=
    Command.ofPrototype?_prototype (isName_openingName hne hopening)
  have hsplit : (Command.prototype ⟨openingName name, arguments, action⟩).toList =
      "\\begin\x7b".toList ++ (name.toList ++ '}' :: arguments.flatMap Delimiter.pair) := by
    rw [Command.prototype, String.toList_append, ← String.ofList_toList (s := name),
      toList_openingName, String.toList_ofList]
    simp
  -- the name of the environment reaches to the first closing brace
  have hname : (name.toList ++ '}' :: arguments.flatMap Delimiter.pair).takeWhile (· != '}') =
      name.toList := by
    rw [List.takeWhile_append_of_pos, List.takeWhile_cons_of_neg (by simp), List.append_nil]
    intro c hc
    simp only [bne_iff_ne]
    rintro rfl
    exact hclosing hc
  rw [ofPrototype?, hsplit, Text.stripFront?_append]
  dsimp only
  rw [if_pos (by simp), hcommand, Option.map_some, hname, String.ofList_toList]

end Names

/-- Whatever does not begin like an opening is the bare name of an environment. -/
theorem ofPrototype?_bare {name : String} (hne : name ≠ "")
    (hbegin : ¬ "\\begin\x7b".toList <+: name.toList)
    (hstart : ¬ "\\start".toList <+: name.toList) (action : Action) :
    ofPrototype? name action = some ⟨name, ⟨openingName name, [], action⟩, true⟩ := by
  -- neither of the two explicit forms
  have hbegin' : Text.stripFront? "\\begin\x7b".toList name.toList = none := by
    rw [Option.eq_none_iff_forall_ne_some]
    intro rest hrest
    exact hbegin ⟨rest, (Text.stripFront?_eq_some_iff.mp hrest).symm⟩
  have hstart' : ¬ Text.startsWith name.toList "\\start".toList = true := by
    rw [Text.startsWith_iff]
    rintro ⟨rest, hrest⟩
    exact hstart ⟨rest, hrest.symm⟩
  have hempty : ¬ name.isEmpty = true := by simpa using hne
  rw [ofPrototype?, hbegin']
  dsimp only
  rw [if_neg hstart', if_neg hempty]

end Environment

end ProseLens.Signature
