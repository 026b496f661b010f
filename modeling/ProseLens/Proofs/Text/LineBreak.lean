import ProseLens.Token.Blank

/-!
# Texts with the other kind of line break

`crlf` puts a carriage return before every line feed.  What is read of a text by heads and by runs
of one class of characters is read of the expanded text in the same way, as long as the class does
not tell the two characters apart.

Lengths differ: the first `n` characters of a text are the first `m` of the expanded one, where `m`
is the length that they have when they are expanded (`Fits`).  Only on one line is that the same
length (`OnLine`).

## Key results

- `takeWhile_crlf`, `dropWhile_crlf`: runs of one class
- `stripFront?_crlf`: texts that begin with a given text
- `Fits.lt_iff`: expanding keeps the order of lengths
-/

namespace ProseLens.Text

open Token (isLineEnd)

/-- The text with a carriage return before every line feed. -/
def crlf (cs : List Char) : List Char :=
  cs.flatMap fun c => if c = '\n' then ['\r', '\n'] else [c]

/-- There is no line break in the text. -/
def Unbroken (cs : List Char) : Prop := ∀ c ∈ cs, isLineEnd c = false

instance (cs : List Char) : Decidable (Unbroken cs) :=
  decidable_of_iff (cs.all (fun c => !isLineEnd c) = true) (by simp [Unbroken])

/-- Two texts without line breaks make up another one. -/
theorem Unbroken.append {cs ds : List Char} (h : Unbroken cs) (h' : Unbroken ds) :
    Unbroken (cs ++ ds) :=
  List.forall_mem_append.mpr ⟨h, h'⟩

/-- A text without line breaks has no line feed. -/
theorem Unbroken.not_mem {cs : List Char} (h : Unbroken cs) : '\n' ∉ cs :=
  fun hmem => absurd (h _ hmem) (by decide)

@[simp] theorem crlf_nil : crlf [] = [] := rfl

/-- A line feed gets a carriage return in front of it. -/
@[simp] theorem crlf_break (cs : List Char) : crlf ('\n' :: cs) = '\r' :: '\n' :: crlf cs := rfl

/-- Any other character stays. -/
theorem crlf_cons {c : Char} (hc : c ≠ '\n') (cs : List Char) : crlf (c :: cs) = c :: crlf cs := by
  simp [crlf, hc]

/-- Texts are expanded one after the other. -/
@[simp] theorem crlf_append (cs ds : List Char) : crlf (cs ++ ds) = crlf cs ++ crlf ds :=
  List.flatMap_append

/-- A text without line feeds stays as it is. -/
theorem crlf_of_not_mem {cs : List Char} (h : '\n' ∉ cs) : crlf cs = cs := by
  induction cs with
  | nil => rfl
  | cons c cs ih =>
    rw [List.mem_cons, not_or] at h
    rw [crlf_cons (Ne.symm h.1), ih h.2]

/-- Only the empty text is expanded to it. -/
@[simp] theorem crlf_eq_nil_iff {cs : List Char} : crlf cs = [] ↔ cs = [] := by
  cases cs with
  | nil => simp
  | cons c cs =>
    by_cases hc : c = '\n'
    · simp [hc]
    · simp [crlf_cons hc]

/-- Expanding loses no character. -/
theorem mem_crlf_of_mem {c : Char} {cs : List Char} (h : c ∈ cs) : c ∈ crlf cs := by
  refine List.mem_flatMap.mpr ⟨c, h, ?_⟩
  split
  · next hc => simp [hc]
  · simp

/-- Expanding line breaks adds nothing but carriage returns. -/
theorem mem_crlf_iff {c : Char} (hc : isLineEnd c = false) {cs : List Char} :
    c ∈ crlf cs ↔ c ∈ cs := by
  have hne : c ≠ '\r' ∧ c ≠ '\n' := by
    constructor <;> rintro rfl <;> exact absurd hc (by decide)
  induction cs with
  | nil => simp
  | cons d cs ih =>
    by_cases hd : d = '\n'
    · simp [hd, hne, ih]
    · simp [crlf_cons hd, ih]

/-- Expanding never makes a text shorter. -/
theorem length_le_crlf (cs : List Char) : cs.length ≤ (crlf cs).length := by
  induction cs with
  | nil => exact Nat.le_refl 0
  | cons c cs ih =>
    by_cases hc : c = '\n'
    -- a line feed becomes two characters
    · subst hc
      simp only [crlf_break, List.length_cons]
      omega
    · rw [crlf_cons hc, List.length_cons, List.length_cons]
      omega

/-- Both texts begin with the same character, unless that is a line break. -/
theorem head?_crlf_iff {c : Char} (hc : isLineEnd c = false) {cs : List Char} :
    (crlf cs).head? = some c ↔ cs.head? = some c := by
  cases cs with
  | nil => simp
  | cons d cs =>
    by_cases hd : d = '\n'
    · subst hd
      -- the expansion starts with the carriage return, and neither is `c`
      have hne : c ≠ '\r' ∧ c ≠ '\n' := by
        constructor <;> rintro rfl <;> exact absurd hc (by decide)
      simp [Ne.symm hne.1, Ne.symm hne.2]
    · rw [crlf_cons hd, List.head?_cons, List.head?_cons]

/-- What depends on a text only if that begins with `c`. -/
theorem eq_crlf_of_head? {β : Type} {f : List Char → β} (c : Char) (other : β)
    (hc : isLineEnd c = false) (hother : ∀ cs : List Char, cs.head? ≠ some c → f cs = other)
    (hcons : ∀ cs, f (c :: crlf cs) = f (c :: cs)) (cs : List Char) : f (crlf cs) = f cs := by
  by_cases hhead : cs.head? = some c
  · obtain ⟨rest, rfl⟩ := List.head?_eq_some_iff.mp hhead
    have hbreak : c ≠ '\n' := by
      rintro rfl
      exact absurd hc (by decide)
    rw [crlf_cons hbreak, hcons]
  · rw [hother _ hhead, hother _ (mt (head?_crlf_iff hc).mp hhead)]

/-- A class that does not tell the two line ends apart asks the same of the first character. -/
theorem any_head?_crlf {p : Char → Bool} (hp : p '\r' = p '\n') (cs : List Char) :
    (crlf cs).head?.any p = cs.head?.any p := by
  cases cs with
  | nil => rfl
  | cons c cs =>
    by_cases hc : c = '\n'
    · subst hc
      exact hp
    · rw [crlf_cons hc]
      rfl

/-! ## Runs -/

section Runs

variable {p : Char → Bool} (hp : p '\r' = p '\n') (cs : List Char)

include hp

/-- A run of such a class is the expansion of the run. -/
theorem takeWhile_crlf : (crlf cs).takeWhile p = crlf (cs.takeWhile p) := by
  induction cs with
  | nil => rfl
  | cons c cs ih =>
    by_cases hc : c = '\n'
    · subst hc
      cases hbreak : p '\n' <;> simp [hp, hbreak, ih]
    · cases hclass : p c <;> simp [crlf_cons hc, hclass, ih]

/-- What is left behind such a run is the expansion of what is left. -/
theorem dropWhile_crlf : (crlf cs).dropWhile p = crlf (cs.dropWhile p) := by
  induction cs with
  | nil => rfl
  | cons c cs ih =>
    by_cases hc : c = '\n'
    · subst hc
      cases hbreak : p '\n' <;> simp [hp, hbreak, ih]
    · cases hclass : p c <;> simp [crlf_cons hc, hclass, ih]

end Runs

/-- A run of characters that are no line breaks is the same in both texts. -/
theorem takeWhile_crlf_of_line {p : Char → Bool} (hreturn : p '\r' = false)
    (hfeed : p '\n' = false) (cs : List Char) : (crlf cs).takeWhile p = cs.takeWhile p := by
  rw [takeWhile_crlf (hreturn.trans hfeed.symm), crlf_of_not_mem]
  intro hmem
  have hbreak := List.all_eq_true.mp List.all_takeWhile _ hmem
  rw [hfeed] at hbreak
  exact nomatch hbreak

/-! ## Beginnings -/

/-- A front without line breaks is stripped from either text alike. -/
theorem stripFront?_crlf {front : List Char} (hfront : Unbroken front)
    (cs : List Char) : stripFront? front (crlf cs) = (stripFront? front cs).map crlf := by
  induction front generalizing cs with
  | nil => rfl
  | cons f front ih =>
    obtain ⟨hf, hfront⟩ := List.forall_mem_cons.mp hfront
    cases cs with
    | nil => rfl
    | cons c cs =>
      by_cases hc : c = '\n'
      · subst hc
        -- at a line break both texts differ from the front at once
        have hne : f ≠ '\r' ∧ f ≠ '\n' := by
          constructor <;> rintro rfl <;> exact absurd hf (by decide)
        simp [stripFront?, hne]
      · rw [crlf_cons hc, stripFront?, stripFront?]
        split
        · exact ih hfront cs
        · rfl

/-- A front without line breaks begins both texts or neither. -/
theorem startsWith_crlf {front : List Char} (hfront : Unbroken front)
    (cs : List Char) : startsWith (crlf cs) front = startsWith cs front := by
  rw [startsWith, startsWith, stripFront?_crlf hfront, Option.isSome_map]

/-! ## Answers in step -/

section Rel

variable {α β α' β' : Type} {r : α → β → Prop} {r' : α' → β' → Prop} {a : Option α} {b : Option β}

/-- Related results stay related under functions that keep what relates them. -/
theorem rel_map {f : α → α'} {g : β → β'} (h : Option.Rel r a b)
    (hmap : ∀ {x y}, r x y → r' (f x) (g y)) : Option.Rel r' (a.map f) (b.map g) := by
  cases h with
  | none => exact .none
  | some h => exact .some (hmap h)

/-- Related results are related in every weaker way. -/
theorem rel_imp {q : α → β → Prop} (h : Option.Rel r a b) (himp : ∀ {x y}, r x y → q x y) :
    Option.Rel q a b := by
  cases h with
  | none => exact .none
  | some h => exact .some (himp h)

end Rel

/-! ## Lengths -/

/-- The first `n` characters of `cs` are there, and all on its first line. -/
structure OnLine (cs : List Char) (n : Nat) : Prop where
  le : n ≤ cs.length
  line : '\n' ∉ cs.take n

namespace OnLine

variable {cs : List Char} {n n' : Nat}

/-- The empty beginning stands on the first line. -/
theorem zero (cs : List Char) : OnLine cs 0 := ⟨Nat.zero_le _, by simp⟩

/-- What is shorter stands on the first line as well. -/
theorem mono (h : OnLine cs n) (hle : n' ≤ n) : OnLine cs n' := by
  refine ⟨Nat.le_trans hle h.le, ?_⟩
  intro hmem
  exact h.line (List.take_subset_take_left cs hle hmem)

/-- A character that is no line feed and what stands on the line after it stand on one line. -/
theorem cons {c : Char} (hc : c ≠ '\n') (h : OnLine cs n) : OnLine (c :: cs) (n + 1) := by
  refine ⟨by simpa using h.le, ?_⟩
  rw [List.take_succ_cons, List.mem_cons, not_or]
  exact ⟨Ne.symm hc, h.line⟩

/-- A first character that is no line feed stands on the first line. -/
theorem one {c : Char} (hc : c ≠ '\n') (h : cs.head? = some c) : OnLine cs 1 := by
  obtain ⟨rest, rfl⟩ := List.head?_eq_some_iff.mp h
  exact (zero rest).cons hc

/-- Two stretches of one line make up a longer one. -/
theorem add (h : OnLine cs n) (h' : OnLine (cs.drop n) n') : OnLine cs (n + n') := by
  have hle := h.le
  have hle' := h'.le
  rw [List.length_drop] at hle'
  refine ⟨by omega, ?_⟩
  rw [List.take_add, List.mem_append, not_or]
  exact ⟨h.line, h'.line⟩

/-- A beginning that is known not to break the line. -/
theorem of_append {front : List Char} (hfront : '\n' ∉ front) (rest : List Char) :
    OnLine (front ++ rest) front.length :=
  ⟨by simp, by rwa [List.take_left]⟩

/-- A run of a class without line feeds stands on the first line. -/
theorem takeWhile {p : Char → Bool} (hfeed : p '\n' = false) (cs : List Char) :
    OnLine cs (cs.takeWhile p).length := by
  have hline : '\n' ∉ cs.takeWhile p := by
    intro hmem
    have hclass := List.all_eq_true.mp List.all_takeWhile _ hmem
    rw [hfeed] at hclass
    exact nomatch hclass
  have h := of_append hline (cs.dropWhile p)
  rwa [List.takeWhile_append_dropWhile] at h

end OnLine

/-- `m` is the length of the first `n` characters of `cs` when they are expanded. -/
structure Fits (cs : List Char) (n m : Nat) : Prop where
  le : n ≤ cs.length
  length_eq : m = (crlf (cs.take n)).length

/-- On one line nothing is expanded. -/
theorem OnLine.fits {cs : List Char} {n : Nat} (h : OnLine cs n) : Fits cs n n := by
  have hle := h.le
  refine ⟨hle, ?_⟩
  rw [crlf_of_not_mem h.line, List.length_take]
  omega

namespace Fits

variable {cs : List Char} {n m n' m' : Nat}

/-- The expansion is cut where the text is. -/
private theorem crlf_eq (cs : List Char) (n : Nat) :
    crlf cs = crlf (cs.take n) ++ crlf (cs.drop n) := by
  rw [← crlf_append, List.take_append_drop]

/-- Lengths that fit take the expansion of what is taken. -/
theorem take_eq (h : Fits cs n m) : (crlf cs).take m = crlf (cs.take n) := by
  rw [crlf_eq cs n, h.length_eq, List.take_left]

/-- Lengths that fit leave the expansion of what is left. -/
theorem drop_eq (h : Fits cs n m) : (crlf cs).drop m = crlf (cs.drop n) := by
  rw [crlf_eq cs n, h.length_eq, List.drop_left]

/-- The empty beginning fits the empty one. -/
theorem zero (cs : List Char) : Fits cs 0 0 := (OnLine.zero cs).fits

/-- A front fits its expansion. -/
theorem of_append (front rest : List Char) :
    Fits (front ++ rest) front.length (crlf front).length :=
  ⟨by simp, by rw [List.take_left]⟩

/-- Lengths that fit add up. -/
theorem add (h : Fits cs n m) (h' : Fits (cs.drop n) n' m') : Fits cs (n + n') (m + m') := by
  have hle := h.le
  have hle' := h'.le
  rw [List.length_drop] at hle'
  refine ⟨by omega, ?_⟩
  rw [List.take_add, crlf_append, List.length_append, h.length_eq, h'.length_eq]

/-- Lengths that fit do so behind any front. -/
theorem append (front : List Char) (h : Fits cs n m) :
    Fits (front ++ cs) (front.length + n) ((crlf front).length + m) :=
  (of_append front cs).add (by rwa [List.drop_left])

/-- A run of one class of characters and some of what follows it. -/
theorem takeWhile_add {p : Char → Bool} (hp : p '\r' = p '\n') (h : Fits (cs.dropWhile p) n m) :
    Fits cs ((cs.takeWhile p).length + n) (((crlf cs).takeWhile p).length + m) := by
  have happend := h.append (cs.takeWhile p)
  rwa [List.takeWhile_append_dropWhile, ← takeWhile_crlf hp] at happend

/-- Runs of a class that does not tell the two line ends apart fit each other. -/
theorem takeWhile {p : Char → Bool} (hp : p '\r' = p '\n') (cs : List Char) :
    Fits cs (cs.takeWhile p).length ((crlf cs).takeWhile p).length :=
  (zero (cs.dropWhile p)).takeWhile_add hp

/-- Lengths that fit do so behind a character that is no line feed. -/
theorem cons {c : Char} (hc : c ≠ '\n') (h : Fits cs n m) : Fits (c :: cs) (n + 1) (m + 1) := by
  have happend := h.append [c]
  rw [crlf_cons hc, crlf_nil, List.length_singleton, Nat.add_comm 1, Nat.add_comm 1] at happend
  exact happend

/-- Expanding keeps the order of lengths. -/
theorem le_of_le (h : Fits cs n m) (h' : Fits cs n' m') (hle : n ≤ n') : m + n' ≤ m' + n := by
  have hle' := h'.le
  obtain ⟨k, rfl⟩ := Nat.exists_eq_add_of_le hle
  have hlength := length_le_crlf ((cs.drop n).take k)
  rw [List.length_take, List.length_drop] at hlength
  rw [h.length_eq, h'.length_eq, List.take_add, crlf_append, List.length_append]
  omega

/-- Lengths that fit compare alike. -/
theorem lt_iff (h : Fits cs n m) (h' : Fits cs n' m') : m < m' ↔ n < n' := by
  rcases Nat.le_total n n' with hle | hle
  · have := h.le_of_le h' hle
    have hsame : n = n' → m = m' := by
      rintro rfl
      rw [h.length_eq, h'.length_eq]
    omega
  · have := h'.le_of_le h hle
    omega

end Fits

end ProseLens.Text
