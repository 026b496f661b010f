/-! # Texts that begin with a given text -/

namespace ProseLens.Text

/-- What follows `front` in a text that begins with it. -/
def stripFront? : (front cs : List Char) → Option (List Char)
  | [], cs => some cs
  | _ :: _, [] => none
  | f :: front, c :: cs => if f = c then stripFront? front cs else none

/-- Whether a text begins with `front`. -/
def startsWith (cs front : List Char) : Bool := (stripFront? front cs).isSome

/-- Number of characters before the first occurrence of `part`. -/
def indexOf? (part : List Char) : List Char → Option Nat
  | [] => if part.isEmpty then some 0 else none
  | c :: cs => if startsWith (c :: cs) part then some 0 else (indexOf? part cs).map (· + 1)

/-- Stripping `front` finds exactly what follows it. -/
theorem stripFront?_eq_some_iff {front cs rest : List Char} :
    stripFront? front cs = some rest ↔ cs = front ++ rest := by
  fun_induction stripFront? front cs with
  | case1 cs => simp
  | case2 => simp
  | case3 f front cs ih => simpa using ih
  | case4 f front c cs h => simp [Ne.symm h]

/-- What stands in front can be stripped again. -/
@[simp] theorem stripFront?_append (front rest : List Char) :
    stripFront? front (front ++ rest) = some rest :=
  stripFront?_eq_some_iff.mpr rfl

/-- A text in two parts is stripped part by part. -/
theorem stripFront?_append_front (front more cs : List Char) :
    stripFront? (front ++ more) cs = (stripFront? front cs).bind (stripFront? more) := by
  fun_induction stripFront? front cs with
  | case1 cs => rfl
  | case2 => rfl
  | case3 f front cs ih => rw [List.cons_append, stripFront?, if_pos rfl, ih]
  | case4 f front c cs h => rw [List.cons_append, stripFront?, if_neg h]; rfl

/-- A text starts with another one if it is that one with something behind it. -/
theorem startsWith_iff {cs front : List Char} :
    startsWith cs front = true ↔ ∃ rest, cs = front ++ rest := by
  simp [startsWith, Option.isSome_iff_exists, stripFront?_eq_some_iff]

/-- What is found is there. -/
theorem exists_append_of_indexOf? {part cs : List Char} {k : Nat} (h : indexOf? part cs = some k) :
    ∃ front rest, cs = front ++ (part ++ rest) ∧ front.length = k := by
  induction cs generalizing k with
  | nil =>
    rw [indexOf?] at h
    split at h
    · next hpart => exact ⟨[], [], by simp [List.isEmpty_iff.mp hpart], Option.some.inj h⟩
    · cases h
  | cons c cs ih =>
    rw [indexOf?] at h
    split at h
    -- the part stands here, so that nothing is in front of it
    · next hstarts =>
      obtain ⟨rest, hrest⟩ := startsWith_iff.mp hstarts
      exact ⟨[], rest, hrest, Option.some.inj h⟩
    · obtain ⟨j, hj, rfl⟩ := Option.map_eq_some_iff.mp h
      obtain ⟨front, rest, rfl, rfl⟩ := ih hj
      exact ⟨c :: front, rest, rfl, rfl⟩

end ProseLens.Text
