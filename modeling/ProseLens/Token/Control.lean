import ProseLens.Token.Blank

/-! # Control sequences, groups, verbatim text and chunk openers -/

namespace ProseLens.Token

/-- A letter of a control word. -/
def isNameLetter (c : Char) : Bool := c.isAlpha || c == '@'

/-- A control sequence: a backslash with a run of name letters or with one other character, and in
    either case with a star that directly follows.  A backslash at the end of the text is none. -/
def control? : List Char → Option Nat
  | '\\' :: c :: cs =>
    let letters := ((c :: cs).takeWhile isNameLetter).length
    let name := max letters 1
    let star := if ((c :: cs).drop name).head? = some '*' then 1 else 0
    some (1 + name + star)
  | _ => none

/-- A group in braces up to the first closing brace; groups do not nest here. -/
def group? : List Char → Option Nat
  | '{' :: cs => (cs.findIdx? (· == '}')).map (· + 2)
  | _ => none

/-- A delimiter, text free of it, and the same delimiter again, all on one line. -/
def delimited? : List Char → Option Nat
  | [] => none
  | delimiter :: cs =>
    if isLineEnd delimiter then none
    else ((cs.takeWhile fun c => !isLineEnd c).findIdx? (· == delimiter)).map (· + 2)

/-- Verbatim text with any delimiter.  A star after the command belongs to the command if delimited
    text follows it, and is the delimiter otherwise. -/
def verbatim? (cs : List Char) : Option Nat :=
  match Text.stripFront? "\\verb".toList cs with
  | none => none
  | some body =>
    let starred := match body with
      | '*' :: inner => (delimited? inner).map (· + 6)
      | _ => none
    starred <|> (delimited? body).map (· + 5)

/-- The opener of an embedded chunk of code: a label between double angle brackets and an equals
    sign, all on one line. -/
def chunkOpener? (cs : List Char) : Option Nat :=
  match Text.stripFront? ['<', '<'] cs with
  | none => none
  | some label =>
    (Text.indexOf? ['>', '>', '='] (label.takeWhile fun c => !isLineEnd c)).map (· + 5)

/-- A control sequence begins with a backslash. -/
theorem control?_of_head?_ne {cs : List Char} (h : cs.head? ≠ some '\\') :
    control? cs = none := by
  unfold control?
  split
  · exact absurd rfl h
  · rfl

/-- A control sequence takes its backslash at least. -/
theorem control?_pos {cs : List Char} {n : Nat} (h : control? cs = some n) : 0 < n := by
  unfold control? at h
  split at h
  · obtain rfl := Option.some.inj h
    omega
  · cases h

/-- The only text with a backslash in front that begins with no control sequence is the backslash
    alone. -/
theorem control?_eq_none_iff {cs : List Char} : control? ('\\' :: cs) = none ↔ cs = [] := by
  cases cs <;> simp [control?]

/-- A control sequence is there in full. -/
theorem length_le_of_control? {cs : List Char} {n : Nat} (h : control? cs = some n) :
    n ≤ cs.length := by
  unfold control? at h
  split at h
  · next c cs =>
    dsimp only at h
    have hletters : ((c :: cs).takeWhile isNameLetter).length ≤ (c :: cs).length :=
      (List.takeWhile_prefix isNameLetter).length_le
    generalize ((c :: cs).takeWhile isNameLetter).length = letters at h hletters
    split at h
    · next hstar =>
      -- there is a star, so that something is left after the name
      have hlt : max letters 1 < (c :: cs).length := by
        apply Nat.lt_of_not_le
        intro hge
        rw [List.drop_eq_nil_of_le hge] at hstar
        exact nomatch hstar
      obtain rfl := Option.some.inj h
      simp only [List.length_cons] at hlt ⊢
      omega
    · obtain rfl := Option.some.inj h
      simp only [List.length_cons] at hletters ⊢
      omega
  · cases h

/-- A control sequence of two characters is not followed by a star. -/
theorem head?_ne_star_of_control? {c : Char} {cs : List Char}
    (h : control? ('\\' :: c :: cs) = some 2) : cs.head? ≠ some '*' := by
  intro hstar
  simp only [control?, Option.some.injEq] at h
  generalize hletters : ((c :: cs).takeWhile isNameLetter).length = letters at h
  -- the name is one character long, so that the star is the next one
  have hname : max letters 1 = 1 := by
    split at h <;> omega
  rw [hname, List.drop_succ_cons, List.drop_zero, if_pos hstar] at h
  omega

/-- A control word ends before what is neither a name letter nor a star. -/
theorem control?_word (word : List Char) {rest : List Char} (hne : word ≠ [])
    (hword : word.all isNameLetter = true)
    (hrest : ∀ c ∈ rest.head?, isNameLetter c = false ∧ c ≠ '*') :
    control? ('\\' :: (word ++ rest)) = some (word.length + 1) := by
  obtain ⟨c, cs, rfl⟩ := List.exists_cons_of_ne_nil hne
  have hnone : rest.takeWhile isNameLetter = [] := by
    cases rest with
    | nil => rfl
    | cons d ds => exact List.takeWhile_cons_of_neg (by simp [(hrest d rfl).1])
  -- the name is the whole word: what follows it is no letter of a name
  have hletters : (c :: cs ++ rest).takeWhile isNameLetter = c :: cs := by
    rw [List.takeWhile_append_of_pos (List.all_eq_true.mp hword), hnone, List.append_nil]
  have hstar : rest.head? ≠ some '*' := fun hstar => (hrest '*' hstar).2 rfl
  have hmax : max (c :: cs).length 1 = (c :: cs).length := by simp
  rw [List.cons_append] at hletters ⊢
  simp only [control?, hletters, hmax]
  rw [← List.cons_append, List.drop_left, if_neg hstar]
  simp only [List.length_cons, Option.some.injEq]
  omega

/-- A control symbol is one character that is no name letter, unless a star follows. -/
theorem control?_symbol {c : Char} {rest : List Char} (hc : isNameLetter c = false)
    (hrest : rest.head? ≠ some '*') : control? ('\\' :: c :: rest) = some 2 := by
  simp [control?, hc, hrest]

/-- Where a character first stands. -/
theorem findIdx?_beq_eq_some_iff {c : Char} {cs : List Char} {k : Nat} :
    cs.findIdx? (· == c) = some k ↔
      ∃ front rest, cs = front ++ c :: rest ∧ front.length = k ∧ c ∉ front := by
  constructor
  · intro h
    induction cs generalizing k with
    | nil => cases h
    | cons d cs ih =>
      rw [List.findIdx?_cons] at h
      split at h
      · next hd =>
        obtain rfl := Option.some.inj h
        exact ⟨[], cs, by rw [beq_iff_eq.mp hd]; rfl, rfl, List.not_mem_nil⟩
      · next hd =>
        obtain ⟨j, hj, rfl⟩ := Option.map_eq_some_iff.mp h
        obtain ⟨front, rest, rfl, rfl, hfront⟩ := ih hj
        refine ⟨d :: front, rest, rfl, rfl, ?_⟩
        rw [List.mem_cons, not_or]
        refine ⟨?_, hfront⟩
        rintro rfl
        exact hd (beq_self_eq_true _)
  · rintro ⟨front, rest, rfl, rfl, hfront⟩
    -- nothing is found before the first occurrence
    have hnone : front.findIdx? (· == c) = none := by
      rw [List.findIdx?_eq_none_iff]
      intro d hd
      rw [beq_eq_false_iff_ne]
      rintro rfl
      exact hfront hd
    simp [List.findIdx?_append, hnone, List.findIdx?_cons]

/-- A group ends at the first closing brace. -/
theorem group?_append {name rest : List Char} (hname : '}' ∉ name) :
    group? ('{' :: (name ++ '}' :: rest)) = some (name.length + 2) := by
  rw [group?, findIdx?_beq_eq_some_iff.mpr ⟨name, rest, rfl, rfl, hname⟩, Option.map_some]

/-- A group begins with a brace. -/
theorem group?_of_head?_ne {cs : List Char} (h : cs.head? ≠ some '{') :
    group? cs = none := by
  unfold group?
  split
  · exact absurd rfl h
  · rfl

/-- A group takes its braces. -/
theorem group?_pos {cs : List Char} {n : Nat} (h : group? cs = some n) : 0 < n := by
  unfold group? at h
  split at h
  · obtain ⟨k, -, rfl⟩ := Option.map_eq_some_iff.mp h
    omega
  · cases h

/-- Verbatim text takes its command at least. -/
theorem verbatim?_pos {cs : List Char} {n : Nat} (h : verbatim? cs = some n) : 0 < n := by
  unfold verbatim? at h
  split at h
  · cases h
  · dsimp only at h
    rw [Option.orElse_eq_orElse, Option.orElse_eq_or, Option.or_eq_some_iff] at h
    -- the starred reading is tried first
    rcases h with hstarred | ⟨-, hplain⟩
    · split at hstarred
      · obtain ⟨k, -, rfl⟩ := Option.map_eq_some_iff.mp hstarred
        omega
      · cases hstarred
    · obtain ⟨k, -, rfl⟩ := Option.map_eq_some_iff.mp hplain
      omega

/-- A chunk opening takes the marks that it is written with. -/
theorem chunkOpener?_pos {cs : List Char} {n : Nat} (h : chunkOpener? cs = some n) : 0 < n := by
  unfold chunkOpener? at h
  split at h
  · cases h
  · obtain ⟨k, -, rfl⟩ := Option.map_eq_some_iff.mp h
    omega

end ProseLens.Token
