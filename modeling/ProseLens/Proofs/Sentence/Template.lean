import Mathlib.Logic.Function.Basic
import ProseLens.Proofs.Sentence.Shape

/-!
# Sentences made from templates

A template is a sequence of literals with slots between them, and filling the slots with placeholder
words makes a sentence of it.  The expression of that sentence is the template again: its literals,
escaped, with the expression for any placeholder word in every slot.  So the words are found where
they were put, whatever was chosen for them.  Literals may end like a stem or be empty; they must
not hold a placeholder word themselves, and must not go on with the number of the word before them.

The expression of a sentence can also be written by a `Search` that finds one placeholder word after
the other.  All searches that take the first word and all its digits write the same.

## Key results

- `shapeOf_append_of_not_begins`: characters with which no placeholder word begins
- `Search.pattern_eq`: writing the expression of a sentence word by word
- `pattern_fill`: the expression of a filled template
-/

namespace ProseLens

namespace Sentence

section Texts

variable {cs before word rest literal : List Char}

/-! ## Literals -/

/-- No placeholder word occurs in the text. -/
def IsLiteral (cs : List Char) : Prop := ∀ word, IsPlaceholder word → ¬ word <:+: cs

instance (cs : List Char) : Decidable (EndsNumber cs) := Option.decidableForallMem cs.head?

/-- Placeholder words begin with a character that they do not hold a second time. -/
theorem IsPlaceholder.exists_initial (h : IsPlaceholder word) :
    ∃ c tail, word = c :: tail ∧ isInitial c = true ∧ ∀ d ∈ tail, isInitial d = false := by
  obtain ⟨stem, hstem, numbers, -, hdigits, rfl⟩ := h
  obtain ⟨c, tail, hc, htail⟩ := exists_initial_of_mem_stems hstem
  refine ⟨c, tail ++ numbers, by rw [hc, List.cons_append], ?_, ?_⟩
  · rw [isInitial, List.any_eq_true]
    exact ⟨stem, hstem, by simp [hc]⟩
  · intro d hd
    -- neither the rest of the stem nor the number holds such a character
    rcases List.mem_append.mp hd with hd | hd
    · simpa using List.all_eq_true.mp htail d hd
    · exact not_isInitial_of_isDigit (List.all_eq_true.mp hdigits d hd)

/-- A placeholder word that begins in a literal does not reach into the word behind it. -/
theorem IsLiteral.not_begins (h : IsLiteral literal) (hword : IsPlaceholder word)
    {back : List Char} (hne : back ≠ []) (hback : back <:+ literal) {found : List Char}
    (hfound : IsPlaceholder found) : ¬ found <+: back ++ (word ++ rest) := by
  intro hbegins
  by_cases hle : found.length ≤ back.length
  · have hwithin : found <+: back :=
      List.prefix_of_prefix_length_le hbegins (List.prefix_append _ _) hle
    exact h found hfound (hwithin.isInfix.trans hback.isInfix)
  · -- it would hold the first character of the word behind the literal
    obtain ⟨more, rfl⟩ : back <+: found :=
      List.prefix_of_prefix_length_le (List.prefix_append _ _) hbegins (by omega)
    obtain ⟨c, tail, rfl, hc, -⟩ := hword.exists_initial
    obtain ⟨d, more, rfl⟩ := List.exists_cons_of_ne_nil (show more ≠ [] by
      rintro rfl
      simp at hle)
    rw [List.prefix_append_right_inj, List.cons_append, List.cons_prefix_cons] at hbegins
    obtain rfl := hbegins.1
    obtain ⟨first, others, hsplit, -, hothers⟩ := hfound.exists_initial
    obtain ⟨b, back, rfl⟩ := List.exists_cons_of_ne_nil hne
    obtain rfl := (List.cons.inj hsplit).2
    rw [hothers d (by simp)] at hc
    cases hc

/-! ## How a sentence is cut -/

/-- Characters with which no placeholder word begins stand for themselves. -/
theorem shapeOf_append_of_not_begins
    (h : ∀ back, back ≠ [] → back <:+ before → ∀ found, IsPlaceholder found →
      ¬ found <+: back ++ rest) :
    shapeOf (before ++ rest) = before.map .char ++ shapeOf rest := by
  induction before with
  | nil => rfl
  | cons c before ih =>
    have hfirst := h (c :: before) (by simp) (List.suffix_refl _)
    rw [List.cons_append] at hfirst
    rw [List.cons_append, shapeOf_char hfirst, List.map_cons, List.cons_append,
      ih fun back hne hback => h back hne (hback.trans (List.suffix_cons c before))]

/-- A literal before a placeholder word. -/
theorem shapeOf_literal_word (hliteral : IsLiteral literal) (hword : IsPlaceholder word)
    (hrest : EndsNumber rest) :
    shapeOf (literal ++ (word ++ rest)) = literal.map .char ++ .placeholder :: shapeOf rest := by
  rw [← shapeOf_word hword hrest]
  exact shapeOf_append_of_not_begins fun back hne hback found hfound =>
    hliteral.not_begins hword hne hback hfound

/-! ## Writing expressions -/

/-- A text in which every character with a meaning of its own has a backslash before it. -/
def escape (cs : List Char) : List Char :=
  cs.flatMap fun c => if isMetacharacter c then ['\\', c] else [c]

/-- The expression of a shape without the anchors around it. -/
def Shape.body (shape : Shape) : List Char := shape.flatMap fun symbol => symbol.pattern.toList

/-- A placeholder symbol is written as the expression for any placeholder word. -/
@[simp] theorem Shape.body_placeholder (shape : Shape) :
    Shape.body (.placeholder :: shape) = placeholderPattern.toList ++ shape.body :=
  List.flatMap_cons

/-- Two shapes in a row are written one after the other. -/
@[simp] theorem Shape.body_append (first second : Shape) :
    Shape.body (first ++ second) = first.body ++ second.body :=
  List.flatMap_append

/-- Single characters are written escaped. -/
@[simp] theorem Shape.body_map_char (cs : List Char) : Shape.body (cs.map .char) = escape cs := by
  rw [Shape.body, escape, List.flatMap_map]
  congr 1
  funext c
  have hsingle : c.toString.toList = [c] := String.toList_singleton c
  rw [Symbol.pattern]
  -- a character with a meaning of its own is escaped on both sides
  split
  · rw [String.toList_append, hsingle]
    rfl
  · exact hsingle

/-- The expression of a shape is what it is written as, between the anchors. -/
theorem pattern_eq_body (shape : Shape) :
    shape.pattern = "^" ++ String.ofList shape.body ++ "$" := by
  rw [← String.toList_inj, toList_pattern]
  simp [Shape.body]

/-- A placeholder word in a text. -/
structure Occurrence where
  /-- The text before the word. -/
  before : List Char
  /-- The word. -/
  word : List Char
  /-- The text behind the word. -/
  rest : List Char

/-- The first placeholder word of a text, with all its digits. -/
structure Occurrence.IsFirst (o : Occurrence) (cs : List Char) : Prop where
  eq_append : cs = o.before ++ (o.word ++ o.rest)
  isPlaceholder : IsPlaceholder o.word
  endsNumber : EndsNumber o.rest
  not_begins : ∀ back, back ≠ [] → back <:+ o.before → ∀ found, IsPlaceholder found →
    ¬ found <+: back ++ (o.word ++ o.rest)

/-- A way to find the first placeholder word of any text. -/
structure Search where
  /-- The first placeholder word. -/
  find? : List Char → Option Occurrence
  isFirst_of_find? : ∀ {cs o}, find? cs = some o → o.IsFirst cs
  isLiteral_of_find? : ∀ {cs}, find? cs = none → IsLiteral cs

/-- There is less text behind the word. -/
theorem Occurrence.IsFirst.length_lt {o : Occurrence} (h : o.IsFirst cs) :
    o.rest.length < cs.length := by
  obtain ⟨c, tail, hword, -⟩ := h.isPlaceholder.exists_initial
  rw [h.eq_append, hword]
  simp only [List.length_append, List.length_cons]
  omega

/-- A text is cut at the first placeholder word in it. -/
theorem Occurrence.IsFirst.shapeOf_eq {o : Occurrence} (h : o.IsFirst cs) :
    shapeOf cs = o.before.map .char ++ .placeholder :: shapeOf o.rest := by
  rw [h.eq_append, ← shapeOf_word h.isPlaceholder h.endsNumber]
  exact shapeOf_append_of_not_begins h.not_begins

namespace Search

/-- Writes what is found: the text before each word escaped, the expression for any word instead of
    the word, and at last the text behind all words. -/
def body (search : Search) (cs : List Char) : List Char :=
  match _h : search.find? cs with
  | none => escape cs
  | some o => escape o.before ++ (placeholderPattern.toList ++ body search o.rest)
termination_by cs.length
decreasing_by exact (search.isFirst_of_find? _h).length_lt

/-- The expression for a sentence, from start to end. -/
def pattern (search : Search) (sentence : String) : String :=
  "^" ++ String.ofList (search.body sentence.toList) ++ "$"

/-- What a search writes for a text is what the shape of the text is written as. -/
theorem body_eq (search : Search) (cs : List Char) : search.body cs = (shapeOf cs).body := by
  fun_induction search.body cs with
  | case1 cs h =>
    rw [shapeOf_of_no_placeholder (search.isLiteral_of_find? h), Shape.body_map_char]
  | case2 cs o h ih =>
    rw [(search.isFirst_of_find? h).shapeOf_eq, Shape.body_append, Shape.body_map_char,
      Shape.body_placeholder, ih]

/-- However the first placeholder word is found, the expression is that of the shape. -/
theorem pattern_eq (search : Search) (sentence : String) :
    search.pattern sentence = (shape sentence).pattern := by
  rw [pattern, body_eq, pattern_eq_body]
  rfl

end Search

end Texts

/-! ## Filling a template -/

/-- What a placeholder word is made from. -/
structure Slot where
  /-- What the word stands for. -/
  placeholder : Placeholder
  /-- The language code. -/
  language : String
  /-- The number. -/
  number : Nat
  /-- What it stands for begins with a vowel. -/
  leadsWithVowel : Bool

/-- The placeholder word. -/
def Slot.word (slot : Slot) : String :=
  slot.placeholder.word slot.language slot.number slot.leadsWithVowel

/-- The sentence that begins with a literal and goes on with a placeholder word and a literal for
    each part. -/
def fill (first : String) (parts : List (Slot × String)) : String :=
  first ++ String.join (parts.map fun part => part.1.word ++ part.2)

/-- The expression with the given literals, and any placeholder word between each two of them. -/
def template (first : String) (literals : List String) : String :=
  "^" ++ String.ofList (escape first.toList) ++
    String.join (literals.map fun literal =>
      placeholderPattern ++ String.ofList (escape literal.toList)) ++ "$"

/-- The word that fills a slot is a placeholder word. -/
theorem Slot.isPlaceholder_word (slot : Slot) : IsPlaceholder slot.word.toList := by
  have hnumber : (toString slot.number).toList = Nat.toDigits 10 slot.number := Nat.toList_repr
  refine ⟨_, slot.placeholder.stem_mem_stems slot.language slot.leadsWithVowel,
    Nat.toDigits 10 slot.number, Nat.toDigits_ne_nil, ?_, ?_⟩
  · rw [List.all_eq_true]
    intro c hc
    have hdigit : c.isDigit = true := Nat.isDigit_of_mem_toDigits (by omega) (by omega) hc
    exact hdigit
  · rw [Slot.word, Placeholder.word, String.toList_append, hnumber]

/-- Words with different numbers are different. -/
theorem word_injective (p : Placeholder) (language : String) (leadsWithVowel : Bool) :
    Function.Injective fun number => p.word language number leadsWithVowel := by
  intro number number' h
  have hnumbers := congrArg String.toList h
  simp only [Placeholder.word, String.toList_append, List.append_cancel_left_eq] at hnumbers
  have hdigits : Nat.toDigits 10 number = Nat.toDigits 10 number' := by
    rw [← Nat.toList_repr, ← Nat.toList_repr]
    exact hnumbers
  rw [← Nat.ofDigitChars_ten_toDigits (n := number), hdigits, Nat.ofDigitChars_ten_toDigits]

/-- A template is filled part by part: a literal, a word, and the rest. -/
theorem fill_cons (first : String) (part : Slot × String) (parts : List (Slot × String)) :
    (fill first (part :: parts)).toList =
      first.toList ++ (part.1.word.toList ++ (fill part.2 parts).toList) := by
  simp [fill, String.join_cons]

/-- A template without slots is its literal. -/
theorem fill_nil (first : String) : fill first [] = first := by
  simp [fill]

/-- A literal that does not go on with a number does not do so when slots follow it. -/
theorem endsNumber_fill {literal : String} (h : EndsNumber literal.toList)
    (parts : List (Slot × String)) : EndsNumber (fill literal parts).toList := by
  cases parts with
  | nil => rwa [fill_nil]
  | cons part parts =>
    rw [fill_cons]
    intro c hc
    cases hliteral : literal.toList with
    | cons d others =>
      rw [hliteral] at h hc
      exact h c hc
    | nil =>
      -- a placeholder word does not begin with a digit
      obtain ⟨d, tail, hword, hd, -⟩ := part.1.isPlaceholder_word.exists_initial
      rw [hliteral, hword] at hc
      obtain rfl : d = c := by simpa using hc
      by_contra hdigit
      rw [not_isInitial_of_isDigit (by simpa using hdigit)] at hd
      cases hd

/-- The shape of a filled template does not depend on the words. -/
theorem shapeOf_fill {first : String} {parts : List (Slot × String)}
    (hfirst : IsLiteral first.toList)
    (hparts : ∀ part ∈ parts, IsLiteral part.2.toList ∧ EndsNumber part.2.toList) :
    shapeOf (fill first parts).toList = first.toList.map .char ++
      parts.flatMap fun part => .placeholder :: part.2.toList.map .char := by
  induction parts generalizing first with
  | nil =>
    rw [fill_nil, shapeOf_of_no_placeholder hfirst]
    simp
  | cons part parts ih =>
    -- the word takes all its digits, because the literal behind it does not begin with one
    obtain ⟨⟨hliteral, hnumber⟩, hparts⟩ := List.forall_mem_cons.mp hparts
    rw [fill_cons, shapeOf_literal_word hfirst part.1.isPlaceholder_word
      (endsNumber_fill hnumber parts), ih hliteral hparts]
    simp

/-- The expression of a filled template does not depend on the words that fill it. -/
theorem pattern_fill {first : String} {parts : List (Slot × String)}
    (hfirst : IsLiteral first.toList)
    (hparts : ∀ part ∈ parts, IsLiteral part.2.toList ∧ EndsNumber part.2.toList) :
    (shape (fill first parts)).pattern = template first (parts.map Prod.snd) := by
  -- word by word, what is written does not depend on the word
  have hslots : Shape.body (parts.flatMap fun part => .placeholder :: part.2.toList.map .char) =
      (String.join ((parts.map Prod.snd).map fun literal =>
        placeholderPattern ++ String.ofList (escape literal.toList))).toList := by
    clear hparts
    induction parts with
    | nil => rfl
    | cons part parts ih =>
      rw [List.flatMap_cons, Shape.body_append, ih, Shape.body_placeholder, Shape.body_map_char]
      simp [String.join_cons]
  rw [pattern_eq_body, shape, shapeOf_fill hfirst hparts, Shape.body_append, Shape.body_map_char,
    hslots, String.ofList_append, String.ofList_toList, template]
  simp only [String.append_assoc]

/-! ## A search -/

namespace Occurrence

/-- The first placeholder word, looked for character by character. -/
def first? : List Char → Option Occurrence
  | [] => none
  | c :: cs =>
    match placeholderLength? (c :: cs) with
    | some n => some ⟨[], (c :: cs).take n, (c :: cs).drop n⟩
    | none => (first? cs).map fun o => { o with before := c :: o.before }

/-- The occurrence that is found is the first one. -/
theorem isFirst_of_first? {cs : List Char} {o : Occurrence} (h : first? cs = some o) :
    o.IsFirst cs := by
  fun_induction first? cs generalizing o with
  | case1 => cases h
  | case2 c cs n hn =>
    obtain rfl := Option.some.inj h
    obtain ⟨word, rest, hword, hcs, hrest, rfl⟩ := placeholderLength?_eq_some_iff.mp hn
    rw [hcs, List.take_left, List.drop_left]
    exact ⟨rfl, hword, hrest, fun back hne hback => absurd (List.suffix_nil.mp hback) hne⟩
  | case3 c cs hn ih =>
    obtain ⟨later, hlater, rfl⟩ := Option.map_eq_some_iff.mp h
    have hfirst := ih hlater
    refine ⟨by rw [hfirst.eq_append]; rfl, hfirst.isPlaceholder, hfirst.endsNumber, ?_⟩
    intro back hne hback
    -- no word begins here, and none does before the one that is found later
    rcases List.suffix_cons_iff.mp hback with rfl | hback
    · have hnone := placeholderLength?_eq_none_iff.mp hn
      rw [hfirst.eq_append] at hnone
      exact hnone
    · exact hfirst.not_begins back hne hback

/-- A text in which none is found is a literal. -/
theorem isLiteral_of_first? {cs : List Char} (h : first? cs = none) : IsLiteral cs := by
  fun_induction first? cs with
  | case1 =>
    intro word hword hwithin
    obtain ⟨c, tail, rfl, -⟩ := hword.exists_initial
    simp at hwithin
  | case2 => cases h
  | case3 c cs hn ih =>
    have hothers := ih (Option.map_eq_none_iff.mp h)
    intro word hword hwithin
    -- a word in the text would begin here or later
    rcases List.infix_cons_iff.mp hwithin with hbegins | hwithin
    · exact placeholderLength?_eq_none_iff.mp hn word hword hbegins
    · exact hothers word hword hwithin

end Occurrence

/-- The search character by character. -/
def Search.leftmost : Search where
  find? := Occurrence.first?
  isFirst_of_find? := Occurrence.isFirst_of_first?
  isLiteral_of_find? := Occurrence.isLiteral_of_first?

/-! ## Templates and their sentences -/

/-- The expression of a filled template has its literals escaped and any placeholder word in its
    slots, by whatever search it is written, so that it does not depend on what was chosen for the
    slots.  Words that differ in their number only are different. -/
theorem pattern_of_template (search : Search) (first : String) (parts : List (Slot × String))
    (hfirst : IsLiteral first.toList)
    (hparts : ∀ part ∈ parts, IsLiteral part.2.toList ∧ EndsNumber part.2.toList) :
    search.pattern (fill first parts) = template first (parts.map Prod.snd) ∧
    (shape (fill first parts)).pattern = template first (parts.map Prod.snd) ∧
    (∀ parts' : List (Slot × String), parts'.map Prod.snd = parts.map Prod.snd →
      (shape (fill first parts')).pattern = (shape (fill first parts)).pattern) ∧
    ∀ (p : Placeholder) (language : String) (leadsWithVowel : Bool),
      Function.Injective fun number => p.word language number leadsWithVowel := by
  have hpattern := pattern_fill hfirst hparts
  refine ⟨by rw [search.pattern_eq, hpattern], hpattern, ?_, word_injective⟩
  intro parts' hliterals
  -- the literals are the same, and only of them something is asked
  have hparts' : ∀ part ∈ parts', IsLiteral part.2.toList ∧ EndsNumber part.2.toList := by
    intro part hpart
    have hmem : part.2 ∈ parts.map Prod.snd := hliterals ▸ List.mem_map_of_mem hpart
    obtain ⟨other, hother, hsame⟩ := List.mem_map.mp hmem
    rw [← hsame]
    exact hparts other hother
  rw [hpattern, pattern_fill hfirst hparts', hliterals]

/-- Literals that end in a part of a word, and one that is empty. -/
theorem pattern_of_template_adjacent :
    ∃ parts, fill "See Dumm" parts = "See DummDummies12Jimmy-0 and InaIna7 (x)." ∧
      Search.leftmost.pattern "See DummDummies12Jimmy-0 and InaIna7 (x)." =
        "^See Dumm" ++ placeholderPattern ++ placeholderPattern ++ " and Ina" ++
          placeholderPattern ++ " \\(x\\)\\.$" := by
  let parts : List (Slot × String) :=
    [(⟨.several, "en-US", 12, true⟩, ""), (⟨.singular, "FR_be", 0, false⟩, " and Ina"),
      (⟨.singular, "de", 7, true⟩, " (x).")]
  have hfill : fill "See Dumm" parts = "See DummDummies12Jimmy-0 and InaIna7 (x)." := by
    decide +kernel
  -- that a text is a literal is decided by the search
  have hliteral {literal : String} (h : Occurrence.first? literal.toList = none) :
      IsLiteral literal.toList := Occurrence.isLiteral_of_first? h
  have hparts : ∀ part ∈ parts, IsLiteral part.2.toList ∧ EndsNumber part.2.toList := by
    simp only [parts, List.forall_mem_cons]
    exact ⟨⟨hliteral rfl, by decide⟩, ⟨hliteral rfl, by decide⟩, ⟨hliteral rfl, by decide⟩,
      List.forall_mem_nil _⟩
  obtain ⟨hpattern, -⟩ :=
    pattern_of_template .leftmost "See Dumm" parts (hliteral rfl) hparts
  refine ⟨parts, hfill, ?_⟩
  rw [← hfill, hpattern]
  decide +kernel

end Sentence

end ProseLens
