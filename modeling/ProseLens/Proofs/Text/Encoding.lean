import ProseLens.Text.Bytes

/-!
# Texts as bytes

The bytes of a text are those of its characters, one after the other.  A character below 128 is a
single byte, its code, and all bytes of any other character are 128 or greater.  So a byte below 128
is a character of its own wherever it stands, and whoever looks for such characters only may read
bytes instead.

## Key results

- `data_toUTF8`: the bytes of a text
- `exists_of_getElem?_encode`: a byte below 128 stands where a character begins
- `slice?_eq_some_iff`: the part of a text between two byte offsets
-/

namespace ProseLens.Text

/-- The bytes of a text. -/
def encode (cs : List Char) : List UInt8 := cs.flatMap String.utf8EncodeChar

@[simp] theorem encode_nil : encode [] = [] := rfl

@[simp] theorem encode_cons (c : Char) (cs : List Char) :
    encode (c :: cs) = String.utf8EncodeChar c ++ encode cs := rfl

/-- Texts are encoded one after the other. -/
@[simp] theorem encode_append (cs ds : List Char) : encode (cs ++ ds) = encode cs ++ encode ds := by
  simp [encode]

/-- A text is encoded with its bytes. -/
@[simp] theorem length_encode (cs : List Char) : (encode cs).length = byteLength cs := by
  induction cs with
  | nil => rfl
  | cons c cs ih => simp [ih]

/-- The bytes of a string are the encoding of its characters. -/
theorem data_toUTF8 (s : String) : s.toUTF8.data.toList = encode s.toList := by
  have hbytes : (String.ofList s.toList).toByteArray = s.toList.utf8Encode :=
    String.toByteArray_ofList
  rw [String.ofList_toList] at hbytes
  rw [String.toUTF8_eq_toByteArray, hbytes]
  exact List.toList_data_toByteArray

/-- A character below 128 is one byte. -/
theorem utf8EncodeChar_of_lt {c : Char} (hc : c.toNat < 128) :
    String.utf8EncodeChar c = [c.toUInt8] := by
  have hval : c.val.toNat ≤ 127 := Nat.le_of_lt_succ hc
  unfold String.utf8EncodeChar
  simp only [if_pos hval]
  rfl

/-- All bytes of any other character are 128 or greater. -/
theorem le_of_mem_utf8EncodeChar {c : Char} (hc : 128 ≤ c.toNat) {b : UInt8}
    (hb : b ∈ String.utf8EncodeChar c) : 128 ≤ b.toNat := by
  have hval : 128 ≤ c.val.toNat := hc
  simp only [String.utf8EncodeChar] at hb
  -- two, three or four bytes, each with its marker bits set
  split at hb
  · omega
  · split at hb
    · simp only [List.mem_cons, List.not_mem_nil, or_false] at hb
      rcases hb with rfl | rfl <;> simp only [UInt8.toNat_ofNat'] <;> omega
    · split at hb
      · simp only [List.mem_cons, List.not_mem_nil, or_false] at hb
        rcases hb with rfl | rfl | rfl <;> simp only [UInt8.toNat_ofNat'] <;> omega
      · simp only [List.mem_cons, List.not_mem_nil, or_false] at hb
        rcases hb with rfl | rfl | rfl | rfl <;> simp only [UInt8.toNat_ofNat'] <;> omega

/-- An ASCII character is the byte of its code. -/
theorem toNat_toUInt8 {c : Char} (hc : c.toNat < 128) : c.toUInt8.toNat = c.toNat := by
  show c.val.toUInt8.toNat = c.val.toNat
  have hval : c.val.toNat < 128 := hc
  rw [UInt32.toNat_toUInt8]
  omega

/-- Characters below 128 are told apart by their bytes. -/
theorem toUInt8_inj {c d : Char} (hc : c.toNat < 128) (hd : d.toNat < 128) :
    c.toUInt8 = d.toUInt8 ↔ c = d := by
  constructor
  · intro h
    have hnat : c.toNat = d.toNat := by rw [← toNat_toUInt8 hc, ← toNat_toUInt8 hd, h]
    rw [← Char.ofNat_toNat c, ← Char.ofNat_toNat d, hnat]
  · rintro rfl
    rfl

/-- What follows a place of a text, in bytes. -/
theorem drop_encode {cs rest : List Char} {offset : Nat} (h : dropBytes? cs offset = some rest) :
    (encode cs).drop offset = encode rest := by
  obtain ⟨front, rfl, rfl⟩ := exists_append_of_dropBytes?_eq_some h
  rw [encode_append, ← length_encode, List.drop_left]

/-- A byte below 128 stands where a character begins, and is that character. -/
theorem exists_of_getElem?_encode {cs : List Char} {offset : Nat} {b : UInt8}
    (h : (encode cs)[offset]? = some b) (hb : b.toNat < 128) :
    ∃ c rest, dropBytes? cs offset = some (c :: rest) ∧ c.toNat < 128 ∧ c.toUInt8 = b := by
  induction cs generalizing offset with
  | nil => simp at h
  | cons c cs ih =>
    have hsize := String.length_utf8EncodeChar c
    have hpos := c.utf8Size_pos
    rw [encode_cons] at h
    by_cases hwithin : offset < c.utf8Size
    · rw [List.getElem?_append_left (by omega)] at h
      by_cases hc : c.toNat < 128
      · -- the character is this one byte
        rw [utf8EncodeChar_of_lt hc] at h hsize
        have hzero : offset = 0 := by
          simp only [List.length_cons, List.length_nil] at hsize
          omega
        subst hzero
        exact ⟨c, cs, rfl, hc, by simpa using h⟩
      · have hle := le_of_mem_utf8EncodeChar (by omega) (List.mem_of_getElem? h)
        omega
    · rw [List.getElem?_append_right (by omega), hsize] at h
      obtain ⟨d, rest, hdrop, hd⟩ := ih h
      obtain ⟨k, rfl⟩ : ∃ k, offset = k + 1 := ⟨offset - 1, by omega⟩
      refine ⟨d, rest, ?_, hd⟩
      rw [dropBytes?, if_pos (by omega), hdrop]

/-! ## Parts of a text -/

/-- Every text that `takeBytes?` returns is a beginning of exactly that many bytes. -/
theorem exists_append_of_takeBytes?_eq_some {cs front : List Char} {offset : Nat}
    (h : takeBytes? cs offset = some front) :
    ∃ rest, cs = front ++ rest ∧ byteLength front = offset := by
  fun_induction takeBytes? cs offset generalizing front with
  | case1 cs =>
    obtain rfl := Option.some.inj h
    exact ⟨cs, rfl, rfl⟩
  | case2 => cases h
  -- a whole character fits into what is still to be taken
  | case3 c cs offset hle ih =>
    obtain ⟨more, hmore, rfl⟩ := Option.map_eq_some_iff.mp h
    obtain ⟨rest, rfl, hlength⟩ := ih hmore
    exact ⟨rest, rfl, by simp only [byteLength_cons]; omega⟩
  | case4 => cases h

/-- A slice is taken from what is left from its start on. -/
theorem slice?_of_le {s : String} {start stop : Nat} (hle : start ≤ stop) :
    slice? s start stop = (dropBytes? s.toList start).bind fun tail =>
      (takeBytes? tail (stop - start)).map String.ofList := by
  show (if start ≤ stop then some () else none).bind _ = _
  rw [if_pos hle, Option.bind_some]
  refine Option.bind_congr fun tail _ => ?_
  cases takeBytes? tail (stop - start) <;> rfl

/-- There is no slice that stops before it starts. -/
theorem slice?_of_gt {s : String} {start stop : Nat} (hgt : stop < start) :
    slice? s start stop = none := by
  show (if start ≤ stop then some () else none).bind _ = _
  rw [if_neg (Nat.not_le.mpr hgt), Option.bind_none]

/-- A part of a text lies between what comes before it and what comes behind it. -/
theorem slice?_eq_some_iff {s part : String} {start stop : Nat} :
    slice? s start stop = some part ↔
      ∃ rest, dropBytes? s.toList start = some (part.toList ++ rest) ∧
        start + byteLength part.toList = stop := by
  constructor
  · intro h
    rcases Nat.lt_or_ge stop start with hgt | hle
    -- an empty range only where the two ends meet
    · rw [slice?_of_gt hgt] at h
      cases h
    · rw [slice?_of_le hle, Option.bind_eq_some_iff] at h
      obtain ⟨tail, htail, hpart⟩ := h
      obtain ⟨front, hfront, rfl⟩ := Option.map_eq_some_iff.mp hpart
      obtain ⟨rest, rfl, hlength⟩ := exists_append_of_takeBytes?_eq_some hfront
      rw [String.toList_ofList]
      exact ⟨rest, htail, by omega⟩
  · rintro ⟨rest, hdrop, rfl⟩
    rw [slice?_of_le (Nat.le_add_right _ _), hdrop, Option.bind_some, Nat.add_sub_cancel_left,
      takeBytes?_append, Option.map_some, String.ofList_toList]

/-- Some part of a text that begins at an offset. -/
theorem exists_slice?_iff {s : String} {start n : Nat} {p : List Char → Prop} :
    (∃ part, slice? s start (start + n) = some part ∧ p part.toList) ↔
      ∃ part rest, dropBytes? s.toList start = some (part ++ rest) ∧
        byteLength part = n ∧ p part := by
  constructor
  · rintro ⟨part, hslice, hpart⟩
    obtain ⟨rest, hplace, hlength⟩ := slice?_eq_some_iff.mp hslice
    exact ⟨part.toList, rest, hplace, Nat.add_left_cancel hlength, hpart⟩
  · rintro ⟨part, rest, hplace, rfl, hpart⟩
    -- a list of characters is a text of its own
    refine ⟨String.ofList part, slice?_eq_some_iff.mpr ⟨rest, ?_, ?_⟩, ?_⟩ <;>
      rw [String.toList_ofList]
    · exact hplace
    · exact hpart

/-- All parts of a text that begin at a place. -/
theorem forall_slice?_iff {s : String} {start : Nat} {cs : List Char} {p : List Char → Prop}
    (hplace : dropBytes? s.toList start = some cs) :
    (∀ m part, slice? s start (start + m) = some part → p part.toList) ↔
      ∀ part, part <+: cs → p part := by
  constructor
  · rintro hslice part ⟨rest, rfl⟩
    -- every start of the rest is a slice, as long as its own bytes
    have hpart := hslice (byteLength part) (String.ofList part)
      (slice?_eq_some_iff.mpr ⟨rest, by rwa [String.toList_ofList], by rw [String.toList_ofList]⟩)
    rwa [String.toList_ofList] at hpart
  · intro hprefix m part hslice
    obtain ⟨rest, hplace', -⟩ := slice?_eq_some_iff.mp hslice
    rw [hplace, Option.some.injEq] at hplace'
    exact hprefix part.toList ⟨rest, hplace'.symm⟩

/-- What a recognizer accepts at a place of a text, in bytes. -/
theorem measureAt?_eq_map {s : String} {cs : List Char} {offset : Nat}
    (h : dropBytes? s.toList offset = some cs) (recognize : List Char → Option Nat) :
    measureAt? recognize s offset = (recognize cs).map fun n => byteLength (cs.take n) := by
  simp only [measureAt?, h, Option.bind_eq_bind, Option.bind_some]
  cases recognize cs <;> rfl

/-- A longer beginning of a text has more bytes. -/
theorem byteLength_take_lt {cs : List Char} {n m : Nat} (hlt : n < m) (hle : m ≤ cs.length) :
    byteLength (cs.take n) < byteLength (cs.take m) := by
  have hmore := length_le_byteLength ((cs.drop n).take (m - n))
  rw [List.length_take, List.length_drop] at hmore
  obtain ⟨k, rfl⟩ : ∃ k, m = n + k := ⟨m - n, by omega⟩
  rw [List.take_add, byteLength_append]
  rw [Nat.add_sub_cancel_left] at hmore
  omega

/-- What lies before a place of a text makes it a place between two characters. -/
theorem isValid_of_dropBytes? {s : String} {rest : List Char} {offset : Nat}
    (h : dropBytes? s.toList offset = some rest) : (String.Pos.Raw.mk offset).IsValid s := by
  obtain ⟨front, hfront, hlength⟩ := exists_append_of_dropBytes?_eq_some h
  rw [String.Pos.Raw.isValid_iff_exists_append]
  refine ⟨String.ofList front, String.ofList rest, ?_, ?_⟩
  · rw [← String.ofList_append, hfront, String.ofList_toList]
  · apply String.Pos.Raw.ext
    rw [String.byteIdx_rawEndPos, utf8ByteSize_ofList, hlength]

/-- A place between two characters of a text has a rest of the text behind it. -/
theorem exists_dropBytes?_of_isValid {s : String} {offset : Nat}
    (h : (String.Pos.Raw.mk offset).IsValid s) :
    ∃ rest, dropBytes? s.toList offset = some rest := by
  obtain ⟨front, back, rfl, hfront⟩ := String.Pos.Raw.isValid_iff_exists_append.mp h
  have hoffset : offset = byteLength front.toList := by
    rw [byteLength_toList, ← String.byteIdx_rawEndPos, ← hfront]
  refine ⟨back.toList, ?_⟩
  rw [hoffset, String.toList_append]
  exact dropBytes?_append _ _

end ProseLens.Text
