/-! # Byte lengths and byte offsets of texts

Texts are read as lists of characters, while every offset, length and column that the library
reports is a count of UTF-8 bytes.  This file relates the two.

* `byteLength`    the number of bytes of a list of characters
* `dropBytes?`    the text from a byte offset on, if the offset falls between two characters
* `takeBytes?`    the text up to such an offset
* `slice?`        the part of a text between two byte offsets
* `cover`         the shortest beginning of a text that has a given number of bytes
* `measureAt?`    the bytes that a recognizer of characters accepts at a byte offset

Cutting at an offset never splits a character: an offset inside a character or past the end is
refused by the `?` operations and rounded outwards by `cover`. -/

namespace ProseLens.Text

/-- Number of UTF-8 bytes of a text. -/
def byteLength (cs : List Char) : Nat :=
  cs.foldr (fun c n => c.utf8Size + n) 0

@[simp] theorem byteLength_nil : byteLength [] = 0 := rfl

@[simp] theorem byteLength_cons (c : Char) (cs : List Char) :
    byteLength (c :: cs) = c.utf8Size + byteLength cs := rfl

/-- Bytes are counted part by part. -/
@[simp] theorem byteLength_append (cs ds : List Char) :
    byteLength (cs ++ ds) = byteLength cs + byteLength ds := by
  induction cs with
  | nil => simp
  | cons c cs ih => simp [ih, Nat.add_assoc]

/-- The bytes of a string are those of its characters. -/
@[simp] theorem utf8ByteSize_ofList (cs : List Char) :
    (String.ofList cs).utf8ByteSize = byteLength cs := by
  induction cs with
  | nil => simp
  | cons c cs ih => simp [String.ofList_cons, ih]

/-- The characters of a string have its bytes. -/
@[simp] theorem byteLength_toList (s : String) : byteLength s.toList = s.utf8ByteSize := by
  rw [← utf8ByteSize_ofList, String.ofList_toList]

/-- A text has at least one byte for each character. -/
theorem length_le_byteLength (cs : List Char) : cs.length ≤ byteLength cs := by
  induction cs with
  | nil => simp
  | cons c cs ih =>
    have := c.utf8Size_pos
    simp only [List.length_cons, byteLength_cons]
    omega

/-- The text from byte `offset` on.  `none` if the offset is past the end or inside a character. -/
def dropBytes? : List Char → (offset : Nat) → Option (List Char)
  | cs, 0 => some cs
  | [], _ + 1 => none
  | c :: cs, offset + 1 =>
    if c.utf8Size ≤ offset + 1 then dropBytes? cs (offset + 1 - c.utf8Size) else none

/-- The text before byte `offset`.  `none` if the offset is past the end or inside a character. -/
def takeBytes? : List Char → (offset : Nat) → Option (List Char)
  | _, 0 => some []
  | [], _ + 1 => none
  | c :: cs, offset + 1 =>
    if c.utf8Size ≤ offset + 1 then
      (takeBytes? cs (offset + 1 - c.utf8Size)).map (c :: ·)
    else none

/-- The part of `s` from byte `start` up to byte `stop`.  `none` if either is not a boundary between
    characters of `s`, or if they are out of order. -/
def slice? (s : String) (start stop : Nat) : Option String := do
  guard (start ≤ stop)
  let tail ← dropBytes? s.toList start
  let part ← takeBytes? tail (stop - start)
  return String.ofList part

/-- The shortest beginning of a text that has at least `bytes` bytes, or all of a shorter text. -/
def cover : List Char → (bytes : Nat) → List Char
  | _, 0 => []
  | [], _ + 1 => []
  | c :: cs, bytes + 1 => c :: cover cs (bytes + 1 - c.utf8Size)

/-- Number of bytes that `recognize` accepts at byte `offset` of `source`.  The recognizer sees the
    text from there on and answers in characters; nothing is accepted off a boundary. -/
def measureAt? (recognize : List Char → Option Nat) (source : String) (offset : Nat) :
    Option Nat := do
  let cs ← dropBytes? source.toList offset
  let n ← recognize cs
  return byteLength (cs.take n)

@[simp] theorem dropBytes?_zero (cs : List Char) : dropBytes? cs 0 = some cs := by
  cases cs <;> rfl

@[simp] theorem takeBytes?_zero (cs : List Char) : takeBytes? cs 0 = some [] := by
  cases cs <;> rfl

/-- Dropping the bytes of a beginning leaves the rest. -/
theorem dropBytes?_append (cs ds : List Char) :
    dropBytes? (cs ++ ds) (byteLength cs) = some ds := by
  induction cs with
  | nil => simp
  | cons c cs ih =>
    have hc := c.utf8Size_pos
    -- the function splits on whether the length is zero, which a character never leaves it
    obtain ⟨k, hk⟩ : ∃ k, byteLength (c :: cs) = k + 1 :=
      ⟨byteLength (c :: cs) - 1, by simp only [byteLength_cons]; omega⟩
    have hle : c.utf8Size ≤ k + 1 := by simp only [byteLength_cons] at hk; omega
    have hsub : k + 1 - c.utf8Size = byteLength cs := by
      simp only [byteLength_cons] at hk; omega
    rw [hk, List.cons_append, dropBytes?, if_pos hle, hsub, ih]

/-- Every text that `dropBytes?` returns is what follows a beginning of exactly that many bytes. -/
theorem exists_append_of_dropBytes?_eq_some {cs ds : List Char} {offset : Nat}
    (h : dropBytes? cs offset = some ds) :
    ∃ front, front ++ ds = cs ∧ byteLength front = offset := by
  fun_induction dropBytes? cs offset with
  | case1 cs => exact ⟨[], by simpa using h.symm, rfl⟩
  | case2 => simp at h
  | case3 c cs offset hle ih =>
    obtain ⟨front, hfront, hlen⟩ := ih h
    exact ⟨c :: front, by simp [hfront], by simp only [byteLength_cons]; omega⟩
  | case4 => simp at h

/-- The text before a boundary and the text after it make up the whole. -/
theorem takeBytes?_append (cs ds : List Char) :
    takeBytes? (cs ++ ds) (byteLength cs) = some cs := by
  induction cs with
  | nil => simp
  | cons c cs ih =>
    have hc := c.utf8Size_pos
    obtain ⟨k, hk⟩ : ∃ k, byteLength (c :: cs) = k + 1 :=
      ⟨byteLength (c :: cs) - 1, by simp only [byteLength_cons]; omega⟩
    have hle : c.utf8Size ≤ k + 1 := by simp only [byteLength_cons] at hk; omega
    have hsub : k + 1 - c.utf8Size = byteLength cs := by
      simp only [byteLength_cons] at hk; omega
    rw [hk, List.cons_append, takeBytes?, if_pos hle, hsub, ih, Option.map_some]

end ProseLens.Text
