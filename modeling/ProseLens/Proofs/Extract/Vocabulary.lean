import ProseLens.Extract.Advance

/-!
# What the tables hold

Accents, the table of control sequences and the pairs of quotation marks decide what a construct is
read as.  Here is what can be said of all their entries at once.

## Key results

- `Token.Accent.IsBase`: what an accent can be put on
- `Extract.Control.fits_of_mem_table`: what the entries of the table stand for
-/

namespace ProseLens

/-- Characters that begin a construct wherever constructs are read. -/
def Text.specials : List Char := ['\\', '{', '}', '$', '%', '&', '~', ' ', '\t', '\r', '\n']

/-- A character that begins no construct of its own, so that it may stand in prose. -/
def Text.isOrdinary (c : Char) : Bool := !specials.contains c

/-- A character is ordinary if it is none of the special ones. -/
theorem Text.isOrdinary_iff {c : Char} : isOrdinary c = true ↔ c ∉ specials := by
  simp [isOrdinary]

/-- A character of some class is none of those that are not of the class. -/
theorem Text.not_mem_of_class {p : Char → Bool} {others : List Char}
    (hp : others.all (fun c => !p c) = true) {c : Char} (hc : p c = true) : c ∉ others := by
  intro hmem
  have hnot := List.all_eq_true.mp hp c hmem
  simp [hc] at hnot

/-- A class of characters is ordinary if none of the others is in it. -/
theorem Text.isOrdinary_of_class {p : Char → Bool} (hp : specials.all (fun c => !p c) = true)
    {c : Char} (hc : p c = true) : isOrdinary c = true :=
  isOrdinary_iff.mpr (not_mem_of_class hp hc)

/-- The spaces that markup is read as: one that may be broken, and two that may not. -/
def Text.spaces : List Char := [' ', '\u00a0', '\u202f']

/-- Neither a digit nor a space. -/
def Text.isBare (c : Char) : Bool := !(c.isDigit || spaces.contains c)

/-- A bare character is no space. -/
theorem Text.not_mem_spaces_of_isBare {c : Char} (h : isBare c = true) : c ∉ spaces := by
  intro hmem
  simp [isBare, hmem] at h

/-- An ordinary character that is bare: what markup can be read as when it is no space and no
    placeholder stands for it. -/
def Text.isGlyph (c : Char) : Bool := isOrdinary c && isBare c

/-- Glyphs are ordinary. -/
theorem Text.isOrdinary_of_isGlyph {c : Char} (h : isGlyph c = true) : isOrdinary c = true :=
  (Bool.and_eq_true_iff.mp h).1

/-- Glyphs are bare. -/
theorem Text.isBare_of_isGlyph {c : Char} (h : isGlyph c = true) : isBare c = true :=
  (Bool.and_eq_true_iff.mp h).2

/-- Letters are glyphs. -/
theorem Text.isGlyph_of_isAlpha {c : Char} (h : c.isAlpha = true) : isGlyph c = true := by
  have hordinary : isOrdinary c = true := isOrdinary_of_class (by decide) h
  have hdigit : c.isDigit = false := by
    -- the codes of letters and digits are apart
    have hletter : (decide (c.val ≥ 65 ∧ c.val ≤ 90) ||
        decide (c.val ≥ 97) && decide (c.val ≤ 122)) = true := h
    show (decide (c.val ≥ 48) && decide (c.val ≤ 57)) = false
    grind
  have hspace : c ∉ spaces := not_mem_of_class (by decide) h
  rw [isGlyph, isBare, hordinary, hdigit, List.contains_eq_mem, decide_eq_false hspace]
  rfl

/-- A character that can carry an accent: a letter, or the dotless i or j. -/
def Token.Accent.IsBase (c : Char) : Prop := c.isAlpha = true ∨ c = '\u0131' ∨ c = '\u0237'

namespace Token

/-- The base that is found behind an accent is a letter, or a letter without its dot. -/
theorem Accent.isBase_of_base? {cs : List Char} {base : Char} {n : Nat}
    (h : Accent.base? cs = some (base, n)) : Accent.IsBase base := by
  unfold Accent.base? at h
  split at h
  -- dotless `i` and `j`, each behind a backslash
  · cases h
    exact .inr (.inl rfl)
  · cases h
    exact .inr (.inr rfl)
  · split at h
    · next halpha =>
      cases h
      exact .inl halpha
    · cases h
  · cases h

/-- The base that is found in braces is of the same kind. -/
theorem isBase_of_bracedBase? {cs : List Char} {base : Char} {n : Nat}
    (h : bracedBase? cs = some (base, n)) : Accent.IsBase base := by
  unfold bracedBase? at h
  split at h
  · split at h
    · next hbase =>
      split at h
      · cases h
        exact Accent.isBase_of_base? hbase
      · cases h
    · cases h
  · cases h

/-- An accent has a base. -/
theorem isBase_of_accent? {cs : List Char} {accent : Accent} (h : accent? cs = some accent) :
    Accent.IsBase accent.base := by
  unfold accent? at h
  split at h
  · dsimp only at h
    split at h
    · split at h
      -- the base stands bare behind the mark, or below in braces
      · next hbare =>
        cases h
        split at hbare
        · cases hbare
        · exact Accent.isBase_of_base? hbare
      · obtain ⟨⟨base, n⟩, hbraced, rfl⟩ := Option.map_eq_some_iff.mp h
        exact isBase_of_bracedBase? hbraced
    · cases h
  · cases h

/-- An accent in a group has a base. -/
theorem isBase_of_accentGroup? {cs : List Char} {accent : Accent}
    (h : accentGroup? cs = some accent) : Accent.IsBase accent.base := by
  unfold accentGroup? at h
  split at h
  · split at h
    · next haccent =>
      split at h
      · cases h
        exact (isBase_of_accent? haccent :)
      · cases h
    · cases h
  · cases h

/-- Accents and the characters that they are composed to are glyphs. -/
theorem Accent.isGlyph_of_mem_marks : ∀ entry ∈ marks,
    Text.isGlyph entry.2.1 = true ∧ ∀ pair ∈ entry.2.2, Text.isGlyph pair.2 = true := by
  decide +kernel

/-- Bases are glyphs. -/
theorem Accent.IsBase.isGlyph {base : Char} (h : Accent.IsBase base) :
    Text.isGlyph base = true := by
  rcases h with h | rfl | rfl
  · exact Text.isGlyph_of_isAlpha h
  · decide
  · decide

/-- An accented letter is made of glyphs, composed or not. -/
theorem Accent.isGlyph_of_mem_compose {mark base c : Char} (hbase : Accent.IsBase base)
    (hc : c ∈ (Accent.compose mark base).toList) : Text.isGlyph c = true := by
  unfold Accent.compose at hc
  split at hc
  · rw [Char.toString, String.toList_singleton, List.mem_singleton] at hc
    rw [hc]
    exact hbase.isGlyph
  · next combining composed hfound =>
    -- the mark is in the table: a composed character where it has one, else base and combining mark
    obtain ⟨hcombining, hcomposed⟩ := isGlyph_of_mem_marks _ (List.mem_of_find?_eq_some hfound)
    split at hc
    · next d hlookup =>
      obtain ⟨before, after, heq, -⟩ := List.lookup_eq_some_iff.mp hlookup
      rw [Char.toString, String.toList_singleton, List.mem_singleton] at hc
      rw [hc]
      exact hcomposed (base, d) (by simp [heq])
    · rw [String.toList_ofList, List.mem_cons, List.mem_singleton] at hc
      rcases hc with rfl | rfl
      · exact hbase.isGlyph
      · exact hcombining

end Token

/-- The characters of placeholder words: letters, digits and a hyphen. -/
def Placeholder.isWordCharacter (c : Char) : Bool := c.isAlphanum || c == '-'

/-- A placeholder word is written with letters, digits and hyphens only. -/
theorem Placeholder.isWordCharacter_of_mem_word {p : Placeholder} {language : String}
    {number : Nat} {leadsWithVowel : Bool} {c : Char}
    (hc : c ∈ (p.word language number leadsWithVowel).toList) : isWordCharacter c = true := by
  have hstems : stems.all (fun stem => stem.toList.all isWordCharacter) = true := by decide +kernel
  rw [word, String.toList_append, List.mem_append] at hc
  rcases hc with hc | hc
  · have hstem := List.all_eq_true.mp hstems _ (p.stem_mem_stems language leadsWithVowel)
    exact List.all_eq_true.mp hstem c hc
  · rw [Nat.toString_eq_repr, Nat.toList_repr] at hc
    have hdigit : c.isDigit = true := Nat.isDigit_of_mem_toDigits (by omega) (by omega) hc
    rw [isWordCharacter, Char.isAlphanum, hdigit, Bool.or_true, Bool.true_or]

/-- No placeholder word is empty. -/
theorem Placeholder.toList_word_ne_nil (p : Placeholder) (language : String) (number : Nat)
    (leadsWithVowel : Bool) : (p.word language number leadsWithVowel).toList ≠ [] := by
  have hstems : ∀ stem ∈ stems, stem.toList ≠ [] := by decide +kernel
  rw [word, String.toList_append]
  exact List.append_ne_nil_of_left_ne_nil (hstems _ (p.stem_mem_stems language leadsWithVowel)) _

/-- A placeholder word has no special characters. -/
theorem Placeholder.isOrdinary_of_mem_word {p : Placeholder} {language : String} {number : Nat}
    {leadsWithVowel : Bool} {c : Char}
    (hc : c ∈ (p.word language number leadsWithVowel).toList) : Text.isOrdinary c = true :=
  Text.isOrdinary_of_class (by decide) (isWordCharacter_of_mem_word hc)

namespace Extract

/-- Punctuation is ordinary. -/
theorem isOrdinary_of_isPunctuation {c : Char} (h : isPunctuation c = true) :
    Text.isOrdinary c = true :=
  Text.isOrdinary_of_class (by decide) h

/-- Pairs with a quotation mark are read as glyphs. -/
theorem isGlyph_of_mem_digraphs : ∀ entry ∈ Extractor.digraphs, ∀ c ∈ entry.2.toList,
    Text.isGlyph c = true := by
  have hdigraphs : Extractor.digraphs.all (fun entry => entry.2.toList.all Text.isGlyph) =
      true := by decide +kernel
  intro entry hentry c hc
  exact List.all_eq_true.mp (List.all_eq_true.mp hdigraphs entry hentry) c hc

namespace Control

/-- What the table says is found in the table; the rest are names attached to an opening or closing,
    and what has no meaning of its own. -/
theorem mem_table_of_ofToken {token : List Char} {control : Control} (h : ofToken token = control) :
    (∃ name, control = .opening (some name)) ∨ (∃ name, control = .closing (some name)) ∨
      control = .other ∨ (String.ofList token, control) ∈ table := by
  unfold ofToken at h
  split at h
  · exact .inl ⟨_, h.symm⟩
  · split at h
    · exact .inr (.inl ⟨_, h.symm⟩)
    · right; right
      -- neither tag of an environment, so that the table decides
      cases hlookup : table.lookup (String.ofList token) with
      | none =>
        rw [hlookup] at h
        exact .inl h.symm
      | some found =>
        obtain ⟨before, after, htable, -⟩ := List.lookup_eq_some_iff.mp hlookup
        rw [hlookup] at h
        right
        rw [htable, ← h]
        simp

/-- Whether an entry of the table is what its kind is meant for. -/
def fits (token : String) : Control → Bool
  | .escaped c => token == String.ofList ['\\', c] && ['$', '%', '&'].contains c
  | .space read _ => [" ", "\u202f"].contains read
  | .word read => read.toList.all Text.isGlyph
  | _ => true

/-- Every entry of the table of control sequences is of the form that its kind asks for. -/
theorem fits_of_mem_table : ∀ entry ∈ table, fits entry.1 entry.2 = true := by decide +kernel

/-- An escaped character is the one behind the backslash. -/
theorem token_of_escaped {token : List Char} {c : Char} (h : ofToken token = .escaped c) :
    token = ['\\', c] ∧ (c = '$' ∨ c = '%' ∨ c = '&') := by
  have hmem : (String.ofList token, .escaped c) ∈ table := by
    simpa using mem_table_of_ofToken h
  have hfits := fits_of_mem_table _ hmem
  simpa only [fits, Bool.and_eq_true, beq_iff_eq, String.ofList_inj, List.contains_eq_mem,
    decide_eq_true_eq, List.mem_cons, List.not_mem_nil, or_false] using hfits

/-- A control sequence for a space is read as one of two spaces. -/
theorem read_of_space {token : List Char} {read : String} {measured : Bool}
    (h : ofToken token = .space read measured) : read = " " ∨ read = "\u202f" := by
  have hmem : (String.ofList token, .space read measured) ∈ table := by
    simpa using mem_table_of_ofToken h
  have hfits := fits_of_mem_table _ hmem
  simpa [fits] using hfits

/-- A control sequence for a word is read as glyphs. -/
theorem isGlyph_of_word {token : List Char} {read : String} (h : ofToken token = .word read)
    {c : Char} (hc : c ∈ read.toList) : Text.isGlyph c = true := by
  have hmem : (String.ofList token, .word read) ∈ table := by
    simpa using mem_table_of_ofToken h
  exact List.all_eq_true.mp (fits_of_mem_table _ hmem) c hc

end Control

end Extract

end ProseLens
