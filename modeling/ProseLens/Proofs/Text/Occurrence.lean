import ProseLens.Text.Bytes
import ProseLens.Text.Front

/-!
# Where a text first occurs

Constructs end where some text first occurs after them.  A text that does not overlap with itself
first occurs where it is put, unless it occurs in what lies before.
-/

namespace ProseLens.Text

/-- No end of the text, all of it apart, is also a beginning of it. -/
def Unbordered (part : List Char) : Prop :=
  ∀ k < part.length, 0 < k → ¬ part.drop k <+: part

instance (part : List Char) : Decidable (Unbordered part) :=
  inferInstanceAs (Decidable (∀ k < part.length, 0 < k → ¬ part.drop k <+: part))

/-- A text that does not occur before the place where it is put, and cannot overlap with itself,
    does not begin before that place. -/
theorem Unbordered.not_prefix {part front back rest : List Char} (h : Unbordered part)
    (hfront : ¬ part <:+: front) (hback : back ≠ []) (hsuffix : back <:+ front) :
    ¬ part <+: back ++ (part ++ rest) := by
  intro hprefix
  by_cases hle : part.length ≤ back.length
  · -- it would lie within what lies before
    have hwithin : part <+: back :=
      List.prefix_of_prefix_length_le hprefix (List.prefix_append back _) hle
    exact hfront (hwithin.isInfix.trans hsuffix.isInfix)
  · -- it would begin before that place and end after it
    have hbegins : back <+: part :=
      List.prefix_of_prefix_length_le (List.prefix_append back _) hprefix (by omega)
    obtain ⟨later, hpart⟩ := hbegins
    have hlength : part.length = back.length + later.length := by
      rw [← hpart, List.length_append]
    have hlater : later = part.drop back.length := by
      rw [← hpart, List.drop_left]
    have hoverlap : later <+: part ++ rest := by
      rw [← hpart] at hprefix
      exact (List.prefix_append_right_inj back).mp (by rwa [← hpart])
    have hborder : later <+: part :=
      List.prefix_of_prefix_length_le hoverlap (List.prefix_append part rest) (by omega)
    have hpos : 0 < back.length := List.length_pos_iff.mpr hback
    rw [hlater] at hborder
    exact h back.length (by omega) hpos hborder

/-- A text does not start with a front that is no prefix of it. -/
theorem startsWith_eq_false_iff {cs front : List Char} :
    startsWith cs front = false ↔ ¬ front <+: cs := by
  rw [← Bool.not_eq_true, startsWith_iff]
  constructor
  · rintro h ⟨rest, rfl⟩
    exact h ⟨rest, rfl⟩
  · rintro h ⟨rest, rfl⟩
    exact h (List.prefix_append front rest)

/-- The index of a text is where it is put, if it does not begin before that. -/
theorem indexOf?_append {part front rest : List Char} (hpart : part ≠ [])
    (hfirst : ∀ back, back ≠ [] → back <:+ front → ¬ part <+: back ++ (part ++ rest)) :
    indexOf? part (front ++ (part ++ rest)) = some front.length := by
  induction front with
  | nil =>
    obtain ⟨c, cs, rfl⟩ := List.exists_cons_of_ne_nil hpart
    have hstarts : startsWith (c :: cs ++ rest) (c :: cs) = true := startsWith_iff.mpr ⟨rest, rfl⟩
    simp only [List.nil_append, List.cons_append, indexOf?] at hstarts ⊢
    rw [if_pos hstarts]
    rfl
  | cons c front ih =>
    -- at the head of the front the part does not start, by the first case of `hfirst`
    have hnot := startsWith_eq_false_iff.mpr (hfirst (c :: front) (by simp) (List.suffix_refl _))
    have hrest := ih fun back hback hsuffix =>
      hfirst back hback (hsuffix.trans (List.suffix_cons c front))
    rw [List.cons_append] at hnot ⊢
    rw [indexOf?, if_neg (by simp [hnot]), hrest]
    rfl

/-- The end of a text of two parts lies in the second, or it reaches into the first. -/
theorem suffix_append_cases {back first second : List Char} (h : back <:+ first ++ second) :
    back <:+ second ∨ ∃ more, more ≠ [] ∧ more <:+ first ∧ back = more ++ second := by
  obtain ⟨front, hfront⟩ := h
  rcases List.append_eq_append_iff.mp hfront with ⟨more, hfirst, hback⟩ | ⟨more, -, hsecond⟩
  -- it begins within `first`, or just at its end
  · by_cases hmore : more = []
    · left
      rw [hback, hmore]
      exact List.suffix_refl second
    · right
      exact ⟨more, hmore, ⟨front, hfirst.symm⟩, hback⟩
  · left
    exact ⟨more, hsecond.symm⟩

/-- What lies between two places of a text. -/
theorem exists_append_of_dropBytes? {source cs ds : List Char} {first second : Nat}
    (hfirst : dropBytes? source first = some cs) (hsecond : dropBytes? source second = some ds)
    (hle : first ≤ second) :
    ∃ between, cs = between ++ ds ∧ first + byteLength between = second := by
  obtain ⟨front, hfront, rfl⟩ := exists_append_of_dropBytes?_eq_some hfirst
  obtain ⟨front', hfront', rfl⟩ := exists_append_of_dropBytes?_eq_some hsecond
  have hsource : front ++ cs = front' ++ ds := hfront.trans hfront'.symm
  rcases List.append_eq_append_iff.mp hsource with ⟨between, rfl, hcs⟩ | ⟨between, rfl, hds⟩
  · exact ⟨between, hcs, by rw [byteLength_append]⟩
  · -- the second place is not before the first, so that they are the same
    have hlength := length_le_byteLength between
    rw [byteLength_append] at hle
    have hnil : between = [] := List.length_eq_zero_iff.mp (by omega)
    subst hnil
    exact ⟨[], by simpa using hds.symm, by simp⟩

/-- What is left at a later boundary is what is left behind the text between the two. -/
theorem dropBytes?_of_dropBytes? {source cs ds between : List Char} {first : Nat}
    (hfirst : dropBytes? source first = some cs) (hcs : cs = between ++ ds) :
    dropBytes? source (first + byteLength between) = some ds := by
  obtain ⟨front, rfl, rfl⟩ := exists_append_of_dropBytes?_eq_some hfirst
  rw [hcs, ← List.append_assoc, ← byteLength_append]
  exact dropBytes?_append _ _

end ProseLens.Text
