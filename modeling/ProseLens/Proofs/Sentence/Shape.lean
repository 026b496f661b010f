import Mathlib.Computability.RegularExpressions
import ProseLens.Sentence

/-!
# Sentences of one shape

A sentence matches the shape of another one if it belongs to the language of that shape's regular
expression (`accepts_iff_mem_matches`).  Finding the placeholder words from the left and matching a
text against the expression cut a text in the same places: no stem begins inside a placeholder word,
so that a word is never found that reaches into the next one, and a word that is found takes all
digits, so that the expression has no choice either.  Hence a text matches a shape exactly if it has
that shape (`accepts_iff`), and since the expression tells the shape (`pattern_injective`), two
sentences match each other exactly if their expressions are the same.

## Key results

- `placeholderLength?_eq_some_iff`: which placeholder word a text begins with
- `accepts_iff`: matching the shape of a sentence is having the same shape
- `pattern_injective`: different shapes have different expressions
- `isMatch_iff_pattern_eq`: the same for any matcher that decides the languages of the expressions
-/

namespace ProseLens.Sentence

variable {cs ds rest rest' word word' : List Char}

/-! ## Placeholder words -/

/-- A placeholder word: a stem with at least one digit after it. -/
def IsPlaceholder (word : List Char) : Prop :=
  ∃ stem ∈ Placeholder.stems, ∃ digits, digits ≠ [] ∧ digits.all isDigit = true ∧
    word = stem.toList ++ digits

/-- The text does not begin with a digit. -/
def EndsNumber (rest : List Char) : Prop := ∀ c ∈ rest.head?, isDigit c = false

/-- A character that a stem begins with. -/
def isInitial (c : Char) : Bool := Placeholder.stems.any fun stem => stem.toList.head? == some c

/-- No stem begins with a digit. -/
theorem not_isInitial_of_isDigit {c : Char} (h : isDigit c = true) : isInitial c = false := by
  simp only [isDigit, Bool.and_eq_true, decide_eq_true_eq] at h
  have hnot : ∀ d ∈ ['D', 'I', 'J'], ¬ d ≤ '9' := by simp
  have hinitials : isInitial c = ['D', 'D', 'I', 'J'].any fun d => some d == some c := rfl
  rw [hinitials, List.any_eq_false]
  intro d hd heq
  obtain rfl : d = c := by simpa using heq
  exact hnot d (by simpa using hd) h.2

/-- Stems begin with a character that they do not hold a second time. -/
theorem exists_initial_of_mem_stems {stem : String} (h : stem ∈ Placeholder.stems) :
    ∃ c tail, stem.toList = c :: tail ∧ tail.all (fun c => !isInitial c) = true := by
  have hstems : ∀ stem ∈ Placeholder.stems, stem.toList ≠ [] ∧
      stem.toList.tail.all (fun c => !isInitial c) = true := by decide +kernel
  obtain ⟨hne, htail⟩ := hstems stem h
  obtain ⟨c, tail, hstem⟩ := List.exists_cons_of_ne_nil hne
  exact ⟨c, tail, hstem, by rwa [hstem] at htail⟩

/-- A number ends where the text after it does not begin with a digit. -/
theorem takeWhile_digits {digits : List Char} (hdigits : digits.all isDigit = true)
    (hrest : EndsNumber rest) : (digits ++ rest).takeWhile isDigit = digits := by
  have hnone : rest.takeWhile isDigit = [] := by
    cases rest with
    | nil => rfl
    | cons c rest => exact List.takeWhile_cons_of_neg (by simp [hrest c rfl])
  rw [List.takeWhile_append_of_pos (List.all_eq_true.mp hdigits), hnone, List.append_nil]

/-- A text begins with one placeholder word at most, if the words are to take all digits. -/
theorem IsPlaceholder.unique (h : IsPlaceholder word) (h' : IsPlaceholder word')
    (hrest : EndsNumber rest) (hrest' : EndsNumber rest') (heq : word ++ rest = word' ++ rest') :
    word = word' := by
  obtain ⟨stem, hstem, digits, -, hdigits, rfl⟩ := h
  obtain ⟨stem', hstem', digits', -, hdigits', rfl⟩ := h'
  -- no stem is the beginning of another one
  have hstems : ∀ stem ∈ Placeholder.stems, ∀ stem' ∈ Placeholder.stems,
      stem.toList <+: stem'.toList → stem = stem' := by decide +kernel
  simp only [List.append_assoc] at heq
  have hsame : stem = stem' := by
    have hbegins : stem.toList <+: stem'.toList ++ (digits' ++ rest') := ⟨_, heq⟩
    rcases Nat.le_total stem.toList.length stem'.toList.length with hle | hle
    · exact hstems stem hstem stem' hstem'
        (List.prefix_of_prefix_length_le hbegins (List.prefix_append _ _) hle)
    · exact (hstems stem' hstem' stem hstem
        (List.prefix_of_prefix_length_le (List.prefix_append _ _) hbegins hle)).symm
  subst hsame
  have hafter := List.append_cancel_left heq
  rw [← takeWhile_digits hdigits hrest, hafter, takeWhile_digits hdigits' hrest']

/-- No length is found if no placeholder word begins the text, with any number of digits. -/
theorem placeholderLength?_eq_none_iff :
    placeholderLength? cs = none ↔ ∀ word, IsPlaceholder word → ¬ word <+: cs := by
  rw [placeholderLength?, List.findSome?_eq_none_iff]
  constructor
  · rintro h word ⟨stem, hstem, digits, hne, hdigits, rfl⟩ ⟨rest, rfl⟩
    have hnone := h stem hstem
    rw [List.append_assoc, Text.stripFront?_append] at hnone
    obtain ⟨d, digits, rfl⟩ := List.exists_cons_of_ne_nil hne
    rw [List.all_cons, Bool.and_eq_true] at hdigits
    simp [hdigits.1] at hnone
  · intro h stem hstem
    split
    · rfl
    · next rest hrest =>
      have hcs := Text.stripFront?_eq_some_iff.mp hrest
      -- one digit would be enough for a placeholder word
      cases rest with
      | nil => rfl
      | cons d rest =>
        have hd : ¬ isDigit d = true := fun hd =>
          h (stem.toList ++ [d]) ⟨stem, hstem, [d], by simp, by simp [hd], rfl⟩
            ⟨rest, by simp [hcs]⟩
        simp [hd]

/-- The placeholder word that a text begins with takes all digits. -/
theorem placeholderLength?_eq_some_iff {n : Nat} :
    placeholderLength? cs = some n ↔
      ∃ word rest, IsPlaceholder word ∧ cs = word ++ rest ∧ EndsNumber rest ∧ n = word.length := by
  -- what is found is a word with all digits; that there is one such word only gives the rest
  have hfound {n : Nat} (h : placeholderLength? cs = some n) : ∃ word rest, IsPlaceholder word ∧
      cs = word ++ rest ∧ EndsNumber rest ∧ n = word.length := by
    obtain ⟨stem, hstem, h⟩ := List.exists_of_findSome?_eq_some h
    split at h
    · cases h
    · next rest hrest =>
      dsimp only at h
      split at h
      · next hpos =>
        refine ⟨stem.toList ++ rest.takeWhile isDigit, rest.dropWhile isDigit,
          ⟨stem, hstem, _, List.length_pos_iff.mp hpos, List.all_takeWhile, rfl⟩, ?_, ?_, ?_⟩
        · rw [Text.stripFront?_eq_some_iff.mp hrest, List.append_assoc,
            List.takeWhile_append_dropWhile]
        · intro c hc
          have hhead := List.head?_dropWhile_not isDigit rest
          rw [Option.mem_def.mp hc] at hhead
          exact hhead
        · rw [List.length_append, String.length_toList]
          exact (Option.some.inj h).symm
      · cases h
  constructor
  · exact hfound
  · rintro ⟨word, rest, hword, rfl, hrest, rfl⟩
    cases hlength : placeholderLength? (word ++ rest) with
    | none =>
      have hnot := placeholderLength?_eq_none_iff.mp hlength word hword
      exact absurd (List.prefix_append word rest) hnot
    | some n =>
      obtain ⟨word', rest', hword', heq, hrest', rfl⟩ := hfound hlength
      rw [hword.unique hword' hrest hrest' heq]

/-! ## How a sentence is cut -/

/-- A placeholder word with all its digits is one symbol. -/
theorem shapeOf_word (hword : IsPlaceholder word) (hrest : EndsNumber rest) :
    shapeOf (word ++ rest) = .placeholder :: shapeOf rest := by
  obtain ⟨c, tail, rfl⟩ : ∃ c tail, word = c :: tail := by
    obtain ⟨stem, -, digits, hne, -, rfl⟩ := hword
    exact List.exists_cons_of_ne_nil (by simp [hne])
  have hlength := placeholderLength?_eq_some_iff.mpr ⟨_, rest, hword, rfl, hrest, rfl⟩
  rw [List.cons_append] at hlength ⊢
  rw [shapeOf, hlength]
  simp

/-- A character that begins no placeholder word is a symbol of its own. -/
theorem shapeOf_char {c : Char} (h : ∀ word, IsPlaceholder word → ¬ word <+: c :: rest) :
    shapeOf (c :: rest) = .char c :: shapeOf rest := by
  rw [shapeOf, placeholderLength?_eq_none_iff.mpr h]

/-- No placeholder word begins with a character that no stem begins with. -/
theorem shapeOf_of_not_isInitial {c : Char} (hc : isInitial c = false) (rest : List Char) :
    shapeOf (c :: rest) = .char c :: shapeOf rest := by
  apply shapeOf_char
  rintro word ⟨stem, hstem, digits, -, -, rfl⟩ hbegins
  obtain ⟨d, tail, hd, -⟩ := exists_initial_of_mem_stems hstem
  rw [hd] at hbegins
  -- a word that begins here would begin with `c`
  have hdc : d = c := (List.cons_prefix_cons.mp hbegins).1
  have hinitial : isInitial c = true := by
    rw [isInitial, List.any_eq_true]
    exact ⟨stem, hstem, by simp [hd, hdc]⟩
  rw [hinitial] at hc
  cases hc

/-- A shape that begins with a character is that of a text that begins with it. -/
theorem exists_of_shapeOf_eq_char {c : Char} {shape : Shape} (h : shapeOf cs = .char c :: shape) :
    ∃ rest, cs = c :: rest ∧ shapeOf rest = shape := by
  cases cs with
  | nil => simp [shapeOf] at h
  | cons d rest =>
    rw [shapeOf] at h
    split at h
    · cases h
    · obtain ⟨hd, hshape⟩ := List.cons.inj h
      exact ⟨rest, by rw [Symbol.char.inj hd], hshape⟩

/-- Texts of one shape begin alike as long as no placeholder word can begin. -/
theorem prefix_of_shapeOf_eq (h : shapeOf ds = shapeOf cs) {front : List Char}
    (hfront : front.all (fun c => !isInitial c) = true) (hbegins : front <+: ds) :
    front <+: cs := by
  induction front generalizing ds cs with
  | nil => exact List.nil_prefix
  | cons c front ih =>
    rw [List.all_cons, Bool.and_eq_true] at hfront
    obtain ⟨more, rfl⟩ := hbegins
    -- each character of the front is a symbol of its own in the shape
    rw [List.cons_append, shapeOf_of_not_isInitial (by simpa using hfront.1)] at h
    obtain ⟨rest, rfl, hrest⟩ := exists_of_shapeOf_eq_char h.symm
    rw [List.cons_prefix_cons]
    exact ⟨rfl, ih hrest.symm hfront.2 (List.prefix_append front more)⟩

/-- Whether a digit comes first is told by the shape. -/
theorem EndsNumber.of_shapeOf_eq (hrest : EndsNumber rest) (h : shapeOf rest' = shapeOf rest) :
    EndsNumber rest' := by
  intro c hc
  obtain ⟨more, rfl⟩ := List.head?_eq_some_iff.mp hc
  by_contra hdigit
  rw [Bool.not_eq_false] at hdigit
  -- a digit is a symbol of its own, so that the other text would begin with it too
  have hbegins : [c] <+: rest :=
    prefix_of_shapeOf_eq h (by simp [not_isInitial_of_isDigit hdigit]) ⟨more, rfl⟩
  obtain ⟨more', rfl⟩ := hbegins
  rw [hrest c rfl] at hdigit
  cases hdigit

/-- Putting a text of the same shape after a character does not make up a placeholder word with
    it. -/
theorem not_placeholder_of_shapeOf_eq {c : Char} (h : shapeOf ds = shapeOf cs)
    (hcs : ∀ word, IsPlaceholder word → ¬ word <+: c :: cs) :
    ∀ word, IsPlaceholder word → ¬ word <+: c :: ds := by
  rintro word ⟨stem, hstem, digits, hne, hdigits, rfl⟩ hbegins
  obtain ⟨d, digits, rfl⟩ := List.exists_cons_of_ne_nil hne
  rw [List.all_cons, Bool.and_eq_true] at hdigits
  obtain ⟨first, tail, hfirst, htail⟩ := exists_initial_of_mem_stems hstem
  -- the stem and its first digit stand in either text, since nothing begins within them
  have hfront : (tail ++ [d]).all (fun c => !isInitial c) = true := by
    rw [List.all_append, htail]
    simp [not_isInitial_of_isDigit hdigits.1]
  rw [hfirst, List.append_cons, List.cons_append, List.cons_append, List.cons_prefix_cons]
    at hbegins
  obtain ⟨rfl, hbegins⟩ := hbegins
  have hds : tail ++ [d] <+: ds := (List.prefix_append _ digits).trans hbegins
  apply hcs (stem.toList ++ [d]) ⟨stem, hstem, [d], by simp, by simp [hdigits.1], rfl⟩
  rw [hfirst, List.cons_append, List.cons_prefix_cons]
  exact ⟨rfl, prefix_of_shapeOf_eq h hfront hds⟩

/-! ## Matching -/

/-- What can follow a placeholder word is what is left by one, with any of its numbers of digits. -/
theorem mem_afterPlaceholder :
    rest ∈ afterPlaceholder cs ↔ ∃ word, IsPlaceholder word ∧ cs = word ++ rest := by
  rw [afterPlaceholder, List.mem_flatMap]
  constructor
  · rintro ⟨stem, hstem, hmem⟩
    split at hmem
    · cases hmem
    · next numbered hnumbered =>
      obtain ⟨k, hk, rfl⟩ := List.mem_map.mp hmem
      rw [List.mem_range] at hk
      -- a beginning of the digits
      have htake : numbered.take (k + 1) <+: numbered.takeWhile isDigit :=
        List.prefix_of_prefix_length_le (List.take_prefix _ _) (List.takeWhile_prefix _)
          (by rw [List.length_take]; omega)
      refine ⟨stem.toList ++ numbered.take (k + 1), ⟨stem, hstem, _, ?_, ?_, rfl⟩, ?_⟩
      · have hlength := (List.takeWhile_prefix isDigit (l := numbered)).length_le
        rw [← List.length_pos_iff, List.length_take]
        omega
      · rw [List.all_eq_true]
        intro c hc
        exact List.all_eq_true.mp List.all_takeWhile c (htake.subset hc)
      · rw [List.append_assoc, List.take_append_drop]
        exact Text.stripFront?_eq_some_iff.mp hnumbered
  · rintro ⟨word, ⟨stem, hstem, digits, hne, hdigits, rfl⟩, rfl⟩
    refine ⟨stem, hstem, ?_⟩
    rw [List.append_assoc, Text.stripFront?_append]
    have hpos := List.length_pos_iff.mpr hne
    refine List.mem_map.mpr ⟨digits.length - 1, ?_, ?_⟩
    · rw [List.mem_range, List.takeWhile_append_of_pos (List.all_eq_true.mp hdigits),
        List.length_append]
      omega
    · rw [Nat.sub_add_cancel hpos, List.drop_left]

/-- A placeholder symbol accepts any placeholder word, and the shape after it the rest. -/
theorem accepts_placeholder {shape : Shape} :
    Shape.accepts (.placeholder :: shape) cs = true ↔
      ∃ word rest, IsPlaceholder word ∧ cs = word ++ rest ∧ shape.accepts rest = true := by
  rw [Shape.accepts, List.any_eq_true]
  constructor
  · rintro ⟨rest, hmem, hrest⟩
    obtain ⟨word, hword, hcs⟩ := mem_afterPlaceholder.mp hmem
    exact ⟨word, rest, hword, hcs, hrest⟩
  · rintro ⟨word, rest, hword, hcs, hrest⟩
    exact ⟨rest, mem_afterPlaceholder.mpr ⟨word, hword, hcs⟩, hrest⟩

/-- A character accepts itself, and the shape after it the rest. -/
theorem accepts_char {c : Char} {shape : Shape} :
    Shape.accepts (.char c :: shape) cs = true ↔
      ∃ rest, cs = c :: rest ∧ shape.accepts rest = true := by
  cases cs with
  | nil => simp [Shape.accepts]
  | cons d rest =>
    simp only [Shape.accepts, Bool.and_eq_true, beq_iff_eq, List.cons.injEq]
    constructor
    · rintro ⟨rfl, h⟩
      exact ⟨rest, ⟨rfl, rfl⟩, h⟩
    · rintro ⟨rest', ⟨rfl, rfl⟩, h⟩
      exact ⟨rfl, h⟩

/-- What is left of a text after the placeholder word that it begins with. -/
theorem drop_eq_of_append {c : Char} (h : c :: cs = word ++ rest) (hword : IsPlaceholder word) :
    cs.drop (word.length - 1) = rest := by
  obtain ⟨stem, -, digits, hne, -, rfl⟩ := hword
  obtain ⟨d, tail, hd⟩ := List.exists_cons_of_ne_nil
    (show stem.toList ++ digits ≠ [] by simp [hne])
  rw [hd, List.cons_append] at h
  rw [hd, (List.cons.inj h).2]
  simp

/-- A text has its own shape. -/
theorem accepts_shapeOf (cs : List Char) : (shapeOf cs).accepts cs = true := by
  fun_induction shapeOf cs with
  | case1 => rfl
  | case2 c cs n hn ih =>
    obtain ⟨word, rest, hword, hcs, -, rfl⟩ := placeholderLength?_eq_some_iff.mp hn
    rw [drop_eq_of_append hcs hword] at ih ⊢
    exact accepts_placeholder.mpr ⟨word, rest, hword, hcs, ih⟩
  | case3 c cs hn ih => exact accepts_char.mpr ⟨cs, rfl, ih⟩

/-- A text that matches the shape of another one is cut in the same way. -/
theorem shapeOf_eq_of_accepts (h : (shapeOf cs).accepts ds = true) : shapeOf ds = shapeOf cs := by
  -- the induction is on how the first text is cut, whose shape is what the second one matches
  fun_induction shapeOf cs generalizing ds with
  | case1 =>
    have hnil : ds = [] := by simpa [Shape.accepts] using h
    rw [hnil, shapeOf]
  | case2 c cs n hn ih =>
    obtain ⟨word, rest, hword, hcs, hrest, rfl⟩ := placeholderLength?_eq_some_iff.mp hn
    rw [drop_eq_of_append hcs hword] at ih h ⊢
    obtain ⟨word', rest', hword', rfl, haccepts⟩ := accepts_placeholder.mp h
    have hshape := ih haccepts
    rw [shapeOf_word hword' (hrest.of_shapeOf_eq hshape), hshape]
  | case3 c cs hn ih =>
    obtain ⟨ds, rfl, haccepts⟩ := accepts_char.mp h
    have hshape := ih haccepts
    -- no word begins at the character here, and hence none there
    have hcs := placeholderLength?_eq_none_iff.mp hn
    rw [shapeOf_char (not_placeholder_of_shapeOf_eq hshape hcs), hshape]

/-- A text matches the shape of another one if it has that shape. -/
theorem accepts_iff : (shapeOf cs).accepts ds = true ↔ shapeOf ds = shapeOf cs := by
  constructor
  · exact shapeOf_eq_of_accepts
  · intro h
    rw [← h]
    exact accepts_shapeOf ds

/-! ## The language of an expression -/

/-- Any character of a list, as an expression. -/
def anyOf (chars : List Char) : RegularExpression Char := (chars.map .char).sum

/-- A text, as an expression. -/
def literally (text : List Char) : RegularExpression Char := (text.map .char).prod

/-- The decimal digits. -/
def digits : List Char := ['0', '1', '2', '3', '4', '5', '6', '7', '8', '9']

/-- The expression for one symbol. -/
def Symbol.expression : Symbol → RegularExpression Char
  | char c => .char c
  | placeholder =>
    (Placeholder.stems.map fun stem => literally stem.toList).sum *
      (anyOf digits * (anyOf digits).star)

/-- The expression for the sentences of a shape. -/
def Shape.expression (shape : Shape) : RegularExpression Char :=
  (shape.map Symbol.expression).prod

/-- The digits, as a list. -/
theorem isDigit_iff_mem_digits {c : Char} : isDigit c = true ↔ c ∈ digits := by
  simp only [isDigit, Bool.and_eq_true, decide_eq_true_eq]
  constructor
  · rintro ⟨hlow, hhigh⟩
    have hlow' : 48 ≤ c.toNat := hlow
    have hhigh' : c.toNat ≤ 57 := hhigh
    -- the digits are consecutive codes
    have hall : ∀ n < 58, 48 ≤ n → Char.ofNat n ∈ digits := by decide +kernel
    have hmem := hall c.toNat (by omega) hlow'
    rwa [Char.ofNat_toNat] at hmem
  · have hall : ∀ c ∈ digits, '0' ≤ c ∧ c ≤ '9' := by simp [digits]
    exact hall c

/-- A sum of expressions matches what one of them matches. -/
theorem mem_matches_sum {expressions : List (RegularExpression Char)} :
    cs ∈ expressions.sum.matches' ↔ ∃ e ∈ expressions, cs ∈ e.matches' := by
  induction expressions with
  | nil => simp [RegularExpression.matches'_zero]
  | cons e expressions ih =>
    rw [List.sum_cons, RegularExpression.matches'_add, Language.mem_add, ih,
      List.exists_mem_cons_iff]

/-- The expression for a text matches that text. -/
theorem mem_matches_literally {text : List Char} :
    cs ∈ (literally text).matches' ↔ cs = text := by
  induction text generalizing cs with
  | nil => exact Language.mem_one cs
  | cons c text ih =>
    -- the expression is a product of single characters
    have hcons : literally (c :: text) = .char c * literally text := List.prod_cons
    rw [hcons, RegularExpression.matches'_mul, Language.mem_mul]
    constructor
    · rintro ⟨first, hfirst, rest, hrest, rfl⟩
      rw [ih.mp hrest, show first = [c] from hfirst]
      rfl
    · rintro rfl
      exact ⟨[c], rfl, text, ih.mpr rfl, rfl⟩

/-- The expression for a digit matches one digit. -/
theorem mem_matches_digit : cs ∈ (anyOf digits).matches' ↔ ∃ d, isDigit d = true ∧ cs = [d] := by
  rw [anyOf, mem_matches_sum]
  constructor
  · rintro ⟨e, he, hcs⟩
    obtain ⟨d, hd, rfl⟩ := List.mem_map.mp he
    exact ⟨d, isDigit_iff_mem_digits.mpr hd, hcs⟩
  · rintro ⟨d, hd, rfl⟩
    exact ⟨.char d, List.mem_map_of_mem (isDigit_iff_mem_digits.mp hd), rfl⟩

/-- The expression for a number matches one or more digits. -/
theorem mem_matches_number :
    cs ∈ (anyOf digits * (anyOf digits).star).matches' ↔ cs ≠ [] ∧ cs.all isDigit = true := by
  rw [RegularExpression.matches'_mul, RegularExpression.matches'_star, Language.mem_mul]
  constructor
  · rintro ⟨first, hfirst, others, hothers, rfl⟩
    obtain ⟨d, hd, rfl⟩ := mem_matches_digit.mp hfirst
    -- the star matches a concatenation of single digits
    obtain ⟨parts, rfl, hparts⟩ := Language.mem_kstar.mp hothers
    refine ⟨by simp, ?_⟩
    rw [List.singleton_append, List.all_cons, hd, Bool.true_and, List.all_eq_true]
    intro c hc
    obtain ⟨part, hpart, hmem⟩ := List.mem_flatten.mp hc
    obtain ⟨d', hd', rfl⟩ := mem_matches_digit.mp (hparts part hpart)
    rwa [List.mem_singleton.mp hmem]
  · rintro ⟨hne, hall⟩
    obtain ⟨d, others, rfl⟩ := List.exists_cons_of_ne_nil hne
    rw [List.all_cons, Bool.and_eq_true] at hall
    refine ⟨[d], mem_matches_digit.mpr ⟨d, hall.1, rfl⟩, others, ?_, rfl⟩
    refine Language.mem_kstar.mpr
      ⟨others.map fun c => [c], (List.flatMap_singleton' others).symm, ?_⟩
    intro part hpart
    obtain ⟨c, hc, rfl⟩ := List.mem_map.mp hpart
    exact mem_matches_digit.mpr ⟨c, List.all_eq_true.mp hall.2 c hc, rfl⟩

/-- The expression for a placeholder matches the placeholder words. -/
theorem mem_matches_placeholder :
    cs ∈ Symbol.placeholder.expression.matches' ↔ IsPlaceholder cs := by
  rw [Symbol.expression, RegularExpression.matches'_mul, Language.mem_mul]
  constructor
  -- the product is a stem and a number, as in the definition of placeholder words
  · rintro ⟨first, hfirst, number, hnumber, rfl⟩
    obtain ⟨e, he, hfirst⟩ := mem_matches_sum.mp hfirst
    obtain ⟨stem, hstem, rfl⟩ := List.mem_map.mp he
    obtain ⟨hne, hdigits⟩ := mem_matches_number.mp hnumber
    exact ⟨stem, hstem, number, hne, hdigits, by rw [mem_matches_literally.mp hfirst]⟩
  · rintro ⟨stem, hstem, number, hne, hdigits, rfl⟩
    refine ⟨stem.toList, ?_, number, mem_matches_number.mpr ⟨hne, hdigits⟩, rfl⟩
    exact mem_matches_sum.mpr ⟨_, List.mem_map_of_mem hstem, mem_matches_literally.mpr rfl⟩

/-- Matching decides the language of the expression. -/
theorem accepts_iff_mem_matches {shape : Shape} :
    shape.accepts cs = true ↔ cs ∈ shape.expression.matches' := by
  induction shape generalizing cs with
  | nil =>
    rw [Shape.accepts, List.isEmpty_iff]
    exact (Language.mem_one cs).symm
  | cons symbol shape ih =>
    have hcons : Shape.expression (symbol :: shape) = symbol.expression * Shape.expression shape :=
      List.prod_cons
    rw [hcons, RegularExpression.matches'_mul, Language.mem_mul]
    -- a shape is matched symbol by symbol, and so is the product of expressions
    cases symbol with
    | char c =>
      rw [accepts_char]
      constructor
      · rintro ⟨rest, rfl, hrest⟩
        exact ⟨[c], rfl, rest, ih.mp hrest, rfl⟩
      · rintro ⟨first, hfirst, rest, hrest, rfl⟩
        rw [show first = [c] from hfirst]
        exact ⟨rest, rfl, ih.mpr hrest⟩
    | placeholder =>
      rw [accepts_placeholder]
      constructor
      · rintro ⟨word, rest, hword, rfl, hrest⟩
        exact ⟨word, mem_matches_placeholder.mpr hword, rest, ih.mp hrest, rfl⟩
      · rintro ⟨word, hword, rest, hrest, rfl⟩
        exact ⟨word, rest, mem_matches_placeholder.mp hword, rfl, ih.mpr hrest⟩

/-! ## The text of an expression -/

/-- The text of an expression is the texts of its symbols between the two anchors. -/
theorem toList_pattern (shape : Shape) :
    shape.pattern.toList =
      '^' :: (shape.flatMap fun symbol => symbol.pattern.toList) ++ ['$'] := by
  have hjoin (patterns : List String) :
      (String.join patterns).toList = patterns.flatMap String.toList := by
    induction patterns with
    | nil => rfl
    | cons first patterns ih => simp [String.join_cons, ih]
  rw [Shape.pattern, String.toList_append, String.toList_append, hjoin, List.flatMap_map]
  rfl

/-- The symbol that an expression begins with, and what follows it.  Only an escaped character
    begins with a backslash, and only a placeholder with a parenthesis. -/
def Symbol.read? : List Char → Option (Symbol × List Char)
  | '\\' :: c :: rest => some (.char c, rest)
  | '(' :: rest => some (.placeholder, rest.drop (placeholderPattern.toList.length - 1))
  | c :: rest => some (.char c, rest)
  | [] => none

/-- The symbol that is written first can be read from the text of an expression. -/
theorem Symbol.read?_pattern (symbol : Symbol) (rest : List Char) :
    read? (symbol.pattern.toList ++ rest) = some (symbol, rest) := by
  cases symbol with
  | placeholder => rfl
  | char c =>
    have hsingle : c.toString.toList = [c] := String.toList_singleton c
    rw [pattern]
    split
    · rw [String.toList_append, hsingle]
      rfl
    · next hplain =>
      -- a character that stands for itself is neither of the two that begin something else
      have hne : c ≠ '\\' ∧ c ≠ '(' := by
        constructor <;> rintro rfl <;> exact hplain (by decide +kernel)
      rw [hsingle, List.singleton_append, read?.eq_def]
      split
      · next heq => exact absurd (List.cons.inj heq).1 hne.1
      · next heq => exact absurd (List.cons.inj heq).1 hne.2
      · next heq => rw [(List.cons.inj heq).1, (List.cons.inj heq).2]
      · next heq => cases heq

/-- Different shapes have different expressions. -/
theorem pattern_injective {shape shape' : Shape} (h : shape.pattern = shape'.pattern) :
    shape = shape' := by
  have hbody := congrArg String.toList h
  rw [toList_pattern, toList_pattern] at hbody
  replace hbody := List.append_cancel_right (List.cons.inj hbody).2
  clear h
  -- without the anchors: the first symbol is read from either side, and is the same
  induction shape generalizing shape' with
  | nil =>
    cases shape' with
    | nil => rfl
    | cons symbol' shape' =>
      have hread := symbol'.read?_pattern (shape'.flatMap fun symbol => symbol.pattern.toList)
      rw [List.flatMap_cons, List.flatMap_nil] at hbody
      rw [← hbody] at hread
      cases hread
  | cons symbol shape ih =>
    have hread := symbol.read?_pattern (shape.flatMap fun symbol => symbol.pattern.toList)
    rw [List.flatMap_cons] at hbody
    rw [hbody] at hread
    cases shape' with
    | nil => cases hread
    | cons symbol' shape' =>
      rw [List.flatMap_cons, symbol'.read?_pattern] at hread
      obtain ⟨rfl, hrest⟩ := Prod.mk.inj (Option.some.inj hread)
      rw [ih hrest.symm]

/-! ## Sentences -/

/-- A text in which no placeholder word occurs is a shape of single characters. -/
theorem shapeOf_of_no_placeholder (h : ∀ word, IsPlaceholder word → ¬ word <:+: cs) :
    shapeOf cs = cs.map .char := by
  induction cs with
  | nil => rw [shapeOf, List.map_nil]
  | cons c cs ih =>
    have hfirst : ∀ word, IsPlaceholder word → ¬ word <+: c :: cs :=
      fun word hword hbegins => h word hword hbegins.isInfix
    have hothers : ∀ word, IsPlaceholder word → ¬ word <:+: cs :=
      fun word hword hwithin => h word hword (hwithin.trans (List.suffix_cons c cs).isInfix)
    rw [shapeOf_char hfirst, ih hothers, List.map_cons]

/-- A shape of single characters is that of one text only. -/
theorem eq_of_shapeOf_eq_map (h : shapeOf ds = cs.map .char) : ds = cs := by
  induction cs generalizing ds with
  | nil =>
    cases ds with
    | nil => rfl
    -- the shape of a text that is not empty has at least one symbol
    | cons d ds =>
      rw [shapeOf, List.map_nil] at h
      split at h <;> cases h
  | cons c cs ih =>
    obtain ⟨rest, rfl, hrest⟩ := exists_of_shapeOf_eq_char h
    rw [ih hrest]

/-- Matching the shape of a sentence is having that shape. -/
theorem matches_iff (s t : String) : (shape s).matches t = true ↔ shape t = shape s :=
  accepts_iff

/-- Sentences of one shape are those with one expression. -/
theorem matches_iff_pattern_eq (s t : String) :
    (shape s).matches t = true ↔ (shape s).pattern = (shape t).pattern := by
  rw [matches_iff]
  constructor
  · intro h
    rw [h]
  · intro h
    exact (pattern_injective h).symm

/-! ## Any matcher

`Shape.matches` goes by the shape.  A program hands the text of the expression to a matcher of
regular expressions instead, of which all that is needed is that it decides the language that the
text stands for. -/

/-- A matcher takes the text of an expression and a sentence.  Given the text of a shape's
    expression, it decides the language of that expression. -/
def DecidesShapes (isMatch : String → String → Bool) : Prop :=
  ∀ (shape : Shape) (t : String),
    isMatch shape.pattern t = true ↔ t.toList ∈ shape.expression.matches'

/-- Such a matcher exists, because the text of an expression tells the shape. -/
theorem exists_decidesShapes : ∃ isMatch, DecidesShapes isMatch := by
  classical
  refine ⟨fun pattern t => decide (∃ shape : Shape, shape.pattern = pattern ∧
    shape.matches t = true), ?_⟩
  intro shape t
  rw [decide_eq_true_iff, ← accepts_iff_mem_matches]
  constructor
  · rintro ⟨shape', hpattern, hmatches⟩
    -- a pattern is that of one shape only, so that the choice does not matter
    rwa [pattern_injective hpattern] at hmatches
  · intro haccepts
    exact ⟨shape, rfl, haccepts⟩

section Matcher

variable {isMatch : String → String → Bool} (hmatch : DecidesShapes isMatch)

include hmatch

/-- Every matcher answers what `Shape.matches` answers. -/
theorem isMatch_eq_matches (shape : Shape) (t : String) :
    isMatch shape.pattern t = shape.matches t := by
  rw [Bool.eq_iff_iff, hmatch shape t, ← accepts_iff_mem_matches]
  rfl

/-- Whatever the matcher, a sentence matches the expression of another one exactly if the two have
    the same expression. -/
theorem isMatch_iff_pattern_eq (s t : String) :
    isMatch (shape s).pattern t = true ↔ (shape s).pattern = (shape t).pattern := by
  rw [isMatch_eq_matches hmatch, matches_iff_pattern_eq]

/-- Matching each other's expressions is an equivalence. -/
theorem equivalence_isMatch :
    Equivalence fun s t : String => isMatch (shape s).pattern t = true := by
  simp only [isMatch_iff_pattern_eq hmatch]
  exact ⟨fun _ => rfl, fun h => h.symm, fun h h' => h.trans h'⟩

end Matcher

/-! ## The relation between sentences -/

/-- A sentence matches the shape of another one if it belongs to the language of its expression, and
    it does so exactly if the two have the same expression.  This is an equivalence, and a sentence
    in which no placeholder word occurs is equivalent to itself alone. -/
theorem sentences_match_iff_pattern_eq :
    (∀ s t : String, (shape s).matches t = true ↔ t.toList ∈ (shape s).expression.matches') ∧
    (∀ s t : String, (shape s).matches t = true ↔ (shape s).pattern = (shape t).pattern) ∧
    Equivalence (fun s t : String => (shape s).matches t = true) ∧
    (∀ s t : String, (∀ stem ∈ Placeholder.stems, ∀ d, isDigit d = true →
        ¬ stem.toList ++ [d] <:+: s.toList) →
      ((shape s).matches t = true ↔ t = s)) := by
  refine ⟨fun s t => accepts_iff_mem_matches, matches_iff_pattern_eq, ⟨?_, ?_, ?_⟩, ?_⟩
  · intro s
    rw [matches_iff]
  · intro s t h
    rw [matches_iff] at h ⊢
    exact h.symm
  · intro s t u h h'
    rw [matches_iff] at h h' ⊢
    exact h'.trans h
  · intro s t hfree
    rw [matches_iff]
    constructor
    · intro h
      -- without a placeholder word, the shape spells out the sentence
      have hshape : shape s = s.toList.map .char := by
        apply shapeOf_of_no_placeholder
        rintro word ⟨stem, hstem, digits, hne, hdigits, rfl⟩ hwithin
        obtain ⟨d, digits, rfl⟩ := List.exists_cons_of_ne_nil hne
        rw [List.all_cons, Bool.and_eq_true] at hdigits
        rw [List.append_cons] at hwithin
        exact hfree stem hstem d hdigits.1 ((List.prefix_append _ digits).isInfix.trans hwithin)
      rw [hshape] at h
      exact String.toList_inj.mp (eq_of_shapeOf_eq_map h)
    · rintro rfl
      rfl

/-- Stems without digits and digits without stems are no placeholder words. -/
theorem sentences_match_iff_pattern_eq_stems :
    (shape "Dumm Ina-12 (Dummy).").matches "Dumm Ina-12 (Dummy)." = true ∧
      (shape "Dumm Ina-12 (Dummy).").matches "Dumm Ina-13 (Dummy)." = false := by
  obtain ⟨-, -, -, halone⟩ := sentences_match_iff_pattern_eq
  have hfree : ∀ stem ∈ Placeholder.stems, ∀ d, isDigit d = true →
      ¬ stem.toList ++ [d] <:+: "Dumm Ina-12 (Dummy).".toList := by
    intro stem hstem d hd
    -- there are finitely many stems and digits to look for
    have hall : (Placeholder.stems.all fun stem => digits.all fun d =>
        decide (¬ stem.toList ++ [d] <:+: "Dumm Ina-12 (Dummy).".toList)) = true := by
      decide +kernel
    have hstem' := List.all_eq_true.mp hall stem hstem
    exact of_decide_eq_true (List.all_eq_true.mp hstem' d (isDigit_iff_mem_digits.mp hd))
  refine ⟨(halone _ _ hfree).mpr rfl, ?_⟩
  rw [← Bool.not_eq_true, halone _ _ hfree]
  decide

example : (shape "See Dummy0 (and Ina12).").matches "See Dummies7 (and Dummy3)." = true := by
  decide +kernel

end ProseLens.Sentence
