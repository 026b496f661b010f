import ProseLens.Proofs.Extract.Vocabulary

/-!
# Which groups are no groups

A dimension in braces is markup as a whole, and an accent in braces is read as one letter.  A
dimension holds nothing but ordinary characters and an accent begins with a backslash, so for most
groups their beginning tells that they are neither.

## Key results

- `exists_of_dimension?`: what a dimension holds
- `dimension?_of_opensGroup`, `accentGroup?_of_opensGroup`: groups that are no accent, and no
  dimension unless all of them is
-/

namespace ProseLens.Token

/-- The number before a unit is made of ordinary characters. -/
theorem isOrdinary_of_mem_quantity {cs : List Char} :
    ∀ c ∈ cs.take (quantityLength cs), Text.isOrdinary c = true := by
  have hdigits (ds : List Char) : ∀ c ∈ ds.take (digitRun ds), Text.isOrdinary c = true := by
    intro c hc
    have htake : ds.take (digitRun ds) = ds.takeWhile Char.isDigit :=
      List.prefix_iff_eq_take.mp (List.takeWhile_prefix _) |>.symm
    rw [htake] at hc
    exact Text.isOrdinary_of_class (by decide) (List.all_eq_true.mp List.all_takeWhile c hc)
  have hsign : ∀ c ∈ cs.take (signLength cs), Text.isOrdinary c = true := by
    unfold signLength
    split
    · next hhead =>
      obtain ⟨rest, rfl⟩ := List.head?_eq_some_iff.mp hhead
      simp [Text.isOrdinary, Text.specials]
    · simp
  have hfraction (ds : List Char) :
      ∀ c ∈ ds.take (fractionLength ds), Text.isOrdinary c = true := by
    unfold fractionLength
    split
    · next ds =>
      split
      · simp
      · rw [Nat.add_comm, List.take_succ_cons]
        exact List.forall_mem_cons.mpr ⟨by decide, hdigits ds⟩
    · simp
  -- sign, whole part and fraction one after the other
  unfold quantityLength
  dsimp only
  rw [List.take_add, List.take_add]
  exact List.forall_mem_append.mpr
    ⟨List.forall_mem_append.mpr ⟨hsign, hdigits _⟩, hfraction _⟩

/-- A dimension holds ordinary characters up to its closing brace. -/
theorem exists_of_dimension? {cs : List Char} {n : Nat}
    (h : dimension? '{' '}' ('{' :: cs) = some n) :
    ∃ inner rest, cs = inner ++ '}' :: rest ∧ n = inner.length + 2 ∧
      ∀ c ∈ inner, Text.isOrdinary c = true := by
  -- every unit is two ordinary characters
  have hunits : units.all (fun u => u.length == 2 && u.all Text.isOrdinary) = true := by decide
  simp only [dimension?] at h
  split at h
  · next hunit =>
    obtain ⟨-, hany, hclosing⟩ := hunit
    obtain ⟨u, hu, hstarts⟩ := List.any_eq_true.mp hany
    obtain ⟨after, hafter⟩ := Text.startsWith_iff.mp hstarts
    have hu' := List.all_eq_true.mp hunits u hu
    simp only [Bool.and_eq_true, beq_iff_eq] at hu'
    rw [hafter, List.drop_left' hu'.1] at hclosing
    obtain ⟨rest, rfl⟩ := List.head?_eq_some_iff.mp hclosing
    refine ⟨cs.take (quantityLength cs) ++ u, rest, ?_, ?_, ?_⟩
    · rw [List.append_assoc, ← hafter, List.take_append_drop]
    · have hlength := congrArg List.length hafter
      simp only [List.length_drop, List.length_append, List.length_cons] at hlength
      rw [List.length_append, List.length_take, hu'.1, ← Option.some.inj h]
      omega
    · exact List.forall_mem_append.mpr
        ⟨isOrdinary_of_mem_quantity, List.all_eq_true.mp hu'.2⟩
  · cases h

/-- Whether an accent may begin with this text, whatever follows. -/
def mayBeginAccent : List Char → Bool
  | '\\' :: mark :: argument =>
    Accent.isMark mark && !(mark.isAlpha && argument.head?.any Char.isAlpha)
  | '\\' :: [] => true
  | _ => false

/-- A group with this inside is no accent, and no dimension unless all of it is. -/
def OpensGroup (inner : List Char) : Prop :=
  (inner.dropWhile Text.isOrdinary).head? ≠ some '}' ∧ mayBeginAccent inner = false

/-- A group that begins with a word, which is all of it or is followed by a space. -/
theorem opensGroup_of_ordinary {word rest : List Char} (hne : word ≠ [])
    (hword : ∀ c ∈ word, Text.isOrdinary c = true) (hrest : ∀ c ∈ rest.head?, c = ' ') :
    OpensGroup (word ++ rest) := by
  constructor
  · rw [List.dropWhile_append_of_pos hword]
    cases rest with
    | nil => simp
    | cons c rest =>
      -- the space is the first character that is not ordinary
      rw [hrest c rfl, List.dropWhile_cons_of_neg (by decide)]
      simp
  · obtain ⟨c, word, rfl⟩ := List.exists_cons_of_ne_nil hne
    have hc : c ≠ '\\' := by
      rintro rfl
      exact absurd (hword '\\' List.mem_cons_self) (by decide)
    rw [List.cons_append, mayBeginAccent.eq_def]
    split
    · next heq => exact absurd (List.cons.inj heq).1 hc
    · next heq => exact absurd (List.cons.inj heq).1 hc
    · rfl

/-- A group that begins with a construct. -/
theorem opensGroup_of_special {c : Char} {cs : List Char} (hspecial : Text.isOrdinary c = false)
    (hbrace : c ≠ '}') (haccent : mayBeginAccent (c :: cs) = false) : OpensGroup (c :: cs) := by
  refine ⟨?_, haccent⟩
  rw [List.dropWhile_cons_of_neg (by simp [hspecial])]
  simpa using hbrace

/-- A text that ends before a closing brace is a dimension as a whole or not at all. -/
theorem dimension?_of_opensGroup {inner : List Char} (h : OpensGroup inner) (rest : List Char) :
    dimension? '{' '}' ('{' :: (inner ++ '}' :: rest)) = none ∨
      dimension? '{' '}' ('{' :: (inner ++ '}' :: rest)) = some (inner.length + 2) := by
  cases hdimension : dimension? '{' '}' ('{' :: (inner ++ '}' :: rest)) with
  | none => exact .inl rfl
  | some n =>
    right
    obtain ⟨held, after, hsplit, hn, hheld⟩ := exists_of_dimension? hdimension
    -- both sides go on with a closing brace after their ordinary characters
    have hdrop := congrArg (List.dropWhile Text.isOrdinary) hsplit
    rw [List.dropWhile_append, List.dropWhile_append_of_pos hheld,
      List.dropWhile_cons_of_neg (by decide), List.dropWhile_cons_of_neg (by decide)] at hdrop
    split at hdrop
    · next hempty =>
      have hafter : rest = after := (List.cons.inj hdrop).2
      rw [hafter] at hsplit
      rw [List.append_cancel_right hsplit, hn]
    · next hnonempty =>
      exfalso
      have hne : inner.dropWhile Text.isOrdinary ≠ [] := by
        rwa [List.isEmpty_iff] at hnonempty
      obtain ⟨c, cs, hcons⟩ := List.exists_cons_of_ne_nil hne
      rw [hcons] at hdrop
      have hc : c = '}' := (List.cons.inj hdrop).1
      apply h.1
      rw [hcons, hc]
      rfl

/-- An accent begins with a backslash. -/
theorem accent?_of_ne_backslash {c : Char} (hc : c ≠ '\\') (cs : List Char) :
    accent? (c :: cs) = none :=
  accent?_of_head?_ne (by simpa using hc)

/-- What is not a mark, or is the beginning of a longer control word, is no accent. -/
theorem accent?_of_not_mark {mark : Char} {argument : List Char}
    (h : (Accent.isMark mark && !(mark.isAlpha && argument.head?.any Char.isAlpha)) = false)
    (rest : List Char) : accent? ('\\' :: mark :: (argument ++ rest)) = none := by
  by_cases hmark : Accent.isMark mark = true
  · rw [hmark, Bool.true_and, Bool.not_eq_false', Bool.and_eq_true] at h
    obtain ⟨hletter, hnext⟩ := h
    obtain ⟨d, ds, rfl⟩ : ∃ d ds, argument = d :: ds := by
      cases argument with
      | nil => simp at hnext
      | cons d ds => exact ⟨d, ds, rfl⟩
    have hd : d.isAlpha = true := by simpa using hnext
    have hspace : (d == ' ') = false := by
      rw [beq_eq_false_iff_ne]
      rintro rfl
      exact absurd hd (by decide)
    -- a letter as a mark takes no letter right behind it, neither bare nor as a braced base
    have hbraced : bracedBase? (d :: (ds ++ rest)) = none := by
      unfold bracedBase?
      split
      · next heq =>
        rw [(List.cons.inj heq).1] at hd
        exact absurd hd (by decide)
      · rfl
    simp [accent?, hmark, hletter, hspace, hd, hbraced]
  · simp [accent?, hmark]

/-- A group that begins as `OpensGroup` says is no accented letter. -/
theorem accentGroup?_of_opensGroup {inner : List Char} (h : OpensGroup inner) (rest : List Char) :
    accentGroup? ('{' :: (inner ++ '}' :: rest)) = none := by
  have hnone : accent? (inner ++ '}' :: rest) = none := by
    -- nothing inside, a backslash that begins no accent, or no backslash
    match inner, h.2 with
    | [], _ => exact accent?_of_ne_backslash (by decide) rest
    | c :: cs, hbegin =>
      by_cases hc : c = '\\'
      · subst hc
        match cs, hbegin with
        | mark :: argument, hbegin => exact accent?_of_not_mark hbegin _
      · exact accent?_of_ne_backslash hc _
  rw [accentGroup?, hnone]

end ProseLens.Token
