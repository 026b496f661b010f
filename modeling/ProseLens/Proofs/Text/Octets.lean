import ProseLens.Proofs.Text.Encoding
import ProseLens.Proofs.Text.Occurrence
import ProseLens.Token.Blank

/-!
# Looking for characters among bytes

A reader of bytes that looks for characters below 128 only finds what a reader of the characters
finds.  It takes a byte for the character of its code (`onByte`); bytes of other characters are then
characters from 128 on, and it may tell these from the others, but not from one another (`Plain`).

Such a reader asks for the bytes from an offset on (`bytesFrom`), and must not ask for an offset
that is past the end.  Where a character begins (`dropBytes?`), it gets the bytes of what follows.

## Key results

- `bytesFrom_encode`: the bytes from a place on
- `getElem?_encode_eq_some_iff`: a character below 128 at a place
- `takeWhile_encode`: a run of a class of characters, in bytes
- `eq_bind_of_opener`: what a reader of bytes finds against what is recognized
- `measureAt?_eq_some_iff`: what is recognized by a grammar, in bytes
-/

namespace ProseLens.Text

/-- Bytes were asked for from an offset on that is past the end. -/
structure PastEnd where
  /-- The offset. -/
  start : Nat
  /-- The number of bytes that there are. -/
  length : Nat
  deriving DecidableEq, Repr

/-- The bytes from an offset on. -/
def bytesFrom (bytes : List UInt8) (start : Nat) : Except PastEnd (List UInt8) :=
  if start ≤ bytes.length then .ok (bytes.drop start) else .error ⟨start, bytes.length⟩

/-- Within the bytes, all from an offset on are there. -/
theorem bytesFrom_of_le {bytes : List UInt8} {start : Nat} (hle : start ≤ bytes.length) :
    bytesFrom bytes start = .ok (bytes.drop start) := if_pos hle

/-- A reader that has got what it asked for goes on with it. -/
theorem ok_bind {ε α β : Type} (a : α) (next : α → Except ε β) : (Except.ok a >>= next) = next a :=
  rfl

/-- A class of characters, asked about a byte that is taken for the character of its code. -/
def onByte (p : Char → Bool) (b : UInt8) : Bool := p (Char.ofUInt8 b)

/-- The class does not tell characters from 128 on from one another. -/
def Plain (p : Char → Bool) : Prop := ∀ c, 128 ≤ c.toNat → p c = p '\u0080'

/-- The class has characters below 128 only. -/
def Low (p : Char → Bool) : Prop := ∀ c, p c = true → c.toNat < 128

section Classes

variable {p : Char → Bool}

/-- A byte is taken for the character of its code. -/
theorem toNat_ofUInt8 (b : UInt8) : (Char.ofUInt8 b).toNat = b.toNat :=
  UInt8.toNat_toUInt32 b

/-- An ASCII character is found again from its byte. -/
theorem ofUInt8_toUInt8 {c : Char} (hc : c.toNat < 128) : Char.ofUInt8 c.toUInt8 = c := by
  apply Char.ext
  show c.val.toUInt8.toUInt32 = c.val
  have hval : c.val.toNat < 128 := hc
  apply UInt32.toNat_inj.mp
  rw [UInt8.toNat_toUInt32, UInt32.toNat_toUInt8]
  omega

/-- A byte is found again from its character. -/
theorem toUInt8_ofUInt8 (b : UInt8) : (Char.ofUInt8 b).toUInt8 = b :=
  UInt8.toUInt8_toUInt32 b

/-- The byte of a character below 128 is in the class if the character is. -/
theorem onByte_toUInt8 {c : Char} (hc : c.toNat < 128) : onByte p c.toUInt8 = p c := by
  rw [onByte, ofUInt8_toUInt8 hc]

/-- Every byte of a character is in a plain class if the character is. -/
theorem Plain.onByte_of_mem (hp : Plain p) {c : Char} {b : UInt8}
    (hb : b ∈ String.utf8EncodeChar c) : onByte p b = p c := by
  by_cases hc : c.toNat < 128
  · rw [utf8EncodeChar_of_lt hc, List.mem_singleton] at hb
    rw [hb, onByte_toUInt8 hc]
  · have hle := le_of_mem_utf8EncodeChar (by omega) hb
    rw [onByte, hp _ (by rwa [toNat_ofUInt8]), hp c (by omega)]

/-- A character has a first byte, which is in a plain class if the character is. -/
theorem exists_utf8EncodeChar_eq_cons (c : Char) :
    ∃ b bs, String.utf8EncodeChar c = b :: bs ∧ ∀ p, Plain p → onByte p b = p c := by
  obtain ⟨b, bs, hbytes⟩ : ∃ b bs, String.utf8EncodeChar c = b :: bs := by
    apply List.exists_cons_of_ne_nil
    rw [← List.length_pos_iff, String.length_utf8EncodeChar]
    exact c.utf8Size_pos
  refine ⟨b, bs, hbytes, fun p hp => hp.onByte_of_mem ?_⟩
  rw [hbytes]
  exact List.mem_cons_self

/-- The bytes of a run of a plain class. -/
theorem takeWhile_encode (hp : Plain p) (cs : List Char) :
    (encode cs).takeWhile (onByte p) = encode (cs.takeWhile p) := by
  induction cs with
  | nil => rfl
  | cons c cs ih =>
    rw [encode_cons]
    by_cases hc : p c = true
    -- the bytes of one character are in the class together
    · have hall : ∀ b ∈ String.utf8EncodeChar c, onByte p b = true := by
        intro b hb
        rw [hp.onByte_of_mem hb, hc]
      rw [List.takeWhile_append_of_pos hall, List.takeWhile_cons_of_pos hc, encode_cons, ih]
    -- or not in it, which the first byte tells
    · obtain ⟨b, bs, hbytes, hclass⟩ := exists_utf8EncodeChar_eq_cons c
      rw [List.takeWhile_cons_of_neg hc, hbytes, List.cons_append,
        List.takeWhile_cons_of_neg (by rwa [hclass p hp]), encode_nil]

/-- Where a plain class is first met, in bytes. -/
theorem findIdx?_encode (hp : Plain p) (cs : List Char) :
    (encode cs).findIdx? (onByte p) = (cs.findIdx? p).map fun n => byteLength (cs.take n) := by
  induction cs with
  | nil => rfl
  | cons c cs ih =>
    rw [encode_cons, List.findIdx?_append, List.findIdx?_cons]
    by_cases hc : p c = true
    · obtain ⟨b, bs, hbytes, hclass⟩ := exists_utf8EncodeChar_eq_cons c
      rw [hbytes, List.findIdx?_cons, hclass p hp, if_pos hc, if_pos hc]
      rfl
    -- a character that is not in the class has no byte in it
    · have hnone : (String.utf8EncodeChar c).findIdx? (onByte p) = none := by
        rw [List.findIdx?_eq_none_iff]
        intro b hb
        rw [hp.onByte_of_mem hb, Bool.eq_false_iff.mpr hc]
      rw [hnone, if_neg hc, ih, Option.none_or, Option.map_map, Option.map_map,
        String.length_utf8EncodeChar]
      refine Option.map_congr fun n _ => ?_
      exact Nat.add_comm _ _

/-- A text of characters below 128 has a byte for each of them. -/
theorem encode_eq_map {cs : List Char} (hcs : ∀ c ∈ cs, c.toNat < 128) :
    encode cs = cs.map Char.toUInt8 := by
  induction cs with
  | nil => rfl
  | cons c cs ih =>
    rw [List.forall_mem_cons] at hcs
    rw [encode_cons, utf8EncodeChar_of_lt hcs.1, ih hcs.2]
    rfl

/-- A text of ASCII characters has one byte for each of them. -/
theorem byteLength_eq_length {cs : List Char} (hcs : ∀ c ∈ cs, c.toNat < 128) :
    byteLength cs = cs.length := by
  rw [← length_encode, encode_eq_map hcs, List.length_map]

end Classes

/-! ## Low classes -/

/-- A class of ASCII characters does not tell the other ones apart. -/
theorem Low.plain {p : Char → Bool} (hp : Low p) : Plain p := by
  have hhigh (c : Char) (hc : 128 ≤ c.toNat) : p c = false := by
    rw [← Bool.not_eq_true]
    intro h
    have := hp c h
    omega
  intro c hc
  rw [hhigh c hc, hhigh '\u0080' (Nat.le_refl 128)]

/-- An ASCII character is a class of its own. -/
theorem low_beq {d : Char} (hd : d.toNat < 128) : Low (· == d) := by
  intro c hc
  rwa [beq_iff_eq.mp hc]

/-- Two classes of ASCII characters make up another one. -/
theorem Low.or {p q : Char → Bool} (hp : Low p) (hq : Low q) : Low fun c => p c || q c := by
  intro c hc
  rcases Bool.or_eq_true_iff.mp hc with hc | hc
  · exact hp c hc
  · exact hq c hc

/-- Digits are ASCII characters. -/
theorem low_isDigit : Low Char.isDigit := fun _ hc =>
  Nat.lt_of_le_of_lt (Char.isDigit_iff_toNat.mp hc).2 (by decide)

/-- Letters are ASCII characters. -/
theorem low_isAlpha : Low Char.isAlpha := by
  intro c hc
  rcases Bool.or_eq_true_iff.mp hc with hupper | hlower
  · have hle : c.val ≤ 'Z'.val := (of_decide_eq_true hupper).2
    exact Nat.lt_of_le_of_lt (UInt32.le_iff_toNat_le.mp hle) (by decide)
  · have hle : c.val ≤ 'z'.val := of_decide_eq_true (Bool.and_eq_true_iff.mp hlower).2
    exact Nat.lt_of_le_of_lt (UInt32.le_iff_toNat_le.mp hle) (by decide)

/-- Line ends are ASCII characters. -/
theorem low_isLineEnd : Low Token.isLineEnd := (low_beq (by decide)).or (low_beq (by decide))

/-- Blanks are ASCII characters. -/
theorem low_isBlank : Low Token.isBlank :=
  ((low_beq (by decide)).or (low_beq (by decide))).or low_isLineEnd

/-! ## Places -/

section Places

variable {text cs : List Char} {i : Nat}

/-- At a place between two characters there are the bytes of what follows it. -/
theorem bytesFrom_encode (h : dropBytes? text i = some cs) :
    bytesFrom (encode text) i = .ok (encode cs) := by
  obtain ⟨front, rfl, rfl⟩ := exists_append_of_dropBytes?_eq_some h
  have hle : byteLength front ≤ (encode (front ++ cs)).length := by
    rw [length_encode, byteLength_append]
    omega
  rw [bytesFrom_of_le hle, drop_encode h]

/-- The byte at a boundary is the first one of the text from there on. -/
theorem getElem?_encode (h : dropBytes? text i = some cs) :
    (encode text)[i]? = (encode cs).head? := by
  rw [← List.head?_drop, drop_encode h]

/-- The byte at such a place tells a character below 128, and a class that does not tell others from
    one another. -/
theorem exists_getElem?_encode {c : Char} (h : dropBytes? text i = some (c :: cs)) :
    ∃ b, (encode text)[i]? = some b ∧ (c.toNat < 128 → b = c.toUInt8) ∧
      ∀ p, Plain p → onByte p b = p c := by
  obtain ⟨b, bs, hbytes, hclass⟩ := exists_utf8EncodeChar_eq_cons c
  refine ⟨b, ?_, ?_, hclass⟩
  · rw [getElem?_encode h, encode_cons, hbytes]
    rfl
  · intro hc
    rw [utf8EncodeChar_of_lt hc] at hbytes
    exact (List.cons.inj hbytes).1.symm

/-- The byte at such a place is that of a character below 128 if that character follows. -/
theorem getElem?_encode_eq_some_iff (h : dropBytes? text i = some cs) {d : Char}
    (hd : d.toNat < 128) : (encode text)[i]? = some d.toUInt8 ↔ cs.head? = some d := by
  cases cs with
  | nil => simp [getElem?_encode h]
  | cons c cs =>
    obtain ⟨b, hbyte, hlow, hclass⟩ := exists_getElem?_encode h
    -- the first byte of the character at that place is `d` just when the character is
    have hb := hclass _ (low_beq hd).plain
    rw [hbyte, List.head?_cons, Option.some.injEq, Option.some.injEq]
    constructor
    · rintro rfl
      rw [onByte_toUInt8 hd, beq_self_eq_true] at hb
      exact beq_iff_eq.mp hb.symm
    · rintro rfl
      exact hlow hd

/-- Where the byte of a character below 128 stands, that character begins. -/
theorem exists_of_getElem?_eq {d : Char} (hd : d.toNat < 128)
    (h : (encode text)[i]? = some d.toUInt8) : ∃ rest, dropBytes? text i = some (d :: rest) := by
  obtain ⟨c, rest, hplace, hc, hbyte⟩ :=
    exists_of_getElem?_encode h (by rwa [toNat_toUInt8 hd])
  obtain rfl := (toUInt8_inj hc hd).mp hbyte
  exact ⟨rest, hplace⟩

/-- A character leads to the next place. -/
theorem dropBytes?_char {c : Char} (h : dropBytes? text i = some (c :: cs)) :
    dropBytes? text (i + c.utf8Size) = some cs :=
  dropBytes?_of_dropBytes? h (List.singleton_append (x := c) (l := cs)).symm

/-- An ASCII character is one byte long. -/
theorem utf8Size_of_lt {c : Char} (hc : c.toNat < 128) : c.utf8Size = 1 := by
  rw [← String.length_utf8EncodeChar, utf8EncodeChar_of_lt hc, List.length_singleton]

/-- Behind an ASCII character the next boundary is the next byte. -/
theorem dropBytes?_succ {c : Char} (h : dropBytes? text i = some (c :: cs)) (hc : c.toNat < 128) :
    dropBytes? text (i + 1) = some cs := by
  have hnext := dropBytes?_char h
  rwa [utf8Size_of_lt hc] at hnext

/-- In a run of a class of characters below 128 there are as many bytes as characters. -/
theorem Low.length_takeWhile_encode {p : Char → Bool} (hp : Low p) (cs : List Char) :
    ((encode cs).takeWhile (onByte p)).length = (cs.takeWhile p).length := by
  rw [takeWhile_encode hp.plain, length_encode, byteLength_eq_length]
  intro c hc
  exact hp c (List.all_eq_true.mp List.all_takeWhile c hc)

/-- Inside a character no such run begins, and neither does one past the end. -/
theorem Low.takeWhile_drop_encode {p : Char → Bool} (hp : Low p) (h : dropBytes? text i = none) :
    ((encode text).drop i).takeWhile (onByte p) = [] := by
  cases hdrop : (encode text).drop i with
  | nil => rfl
  | cons b bs =>
    apply List.takeWhile_cons_of_neg
    intro hb
    have hlow := hp _ hb
    rw [toNat_ofUInt8] at hlow
    -- a byte of the class is a whole character, which would make `i` a place
    have hbyte : (encode text)[i]? = some b := by
      rw [← List.head?_drop, hdrop]
      rfl
    obtain ⟨c, rest, hplace, -⟩ := exists_of_getElem?_encode hbyte hlow
    rw [h] at hplace
    exact nomatch hplace

/-- The byte at a place is in a plain class if the character is that follows. -/
theorem Plain.any_getElem? {p : Char → Bool} (hp : Plain p) (h : dropBytes? text i = some cs) :
    (encode text)[i]?.any (onByte p) = cs.head?.any p := by
  cases cs with
  | nil => rw [getElem?_encode h]; rfl
  | cons c cs =>
    obtain ⟨b, hbyte, -, hclass⟩ := exists_getElem?_encode h
    rw [hbyte, List.head?_cons, Option.any_some, Option.any_some, hclass p hp]

/-- What follows a place tells which place it is. -/
theorem eq_of_dropBytes? {j : Nat} (h : dropBytes? text i = some cs)
    (h' : dropBytes? text j = some cs) : i = j := by
  obtain ⟨front, hfront, rfl⟩ := exists_append_of_dropBytes?_eq_some h
  obtain ⟨front', hfront', rfl⟩ := exists_append_of_dropBytes?_eq_some h'
  rw [List.append_cancel_right (hfront.trans hfront'.symm)]

/-- The bytes between two places. -/
theorem sub_eq_byteLength_take {j n : Nat} (h : dropBytes? text i = some cs)
    (h' : dropBytes? text j = some (cs.drop n)) : j - i = byteLength (cs.take n) := by
  have hnext := dropBytes?_of_dropBytes? h (List.take_append_drop n cs).symm
  rw [← eq_of_dropBytes? hnext h']
  exact Nat.add_sub_cancel_left _ _

end Places

/-! ## Narrow beginnings -/

/-- The first `n` characters of `cs` are there, and are a byte each. -/
structure Narrow (cs : List Char) (n : Nat) : Prop where
  le : n ≤ cs.length
  lt : ∀ c ∈ cs.take n, c.toNat < 128

namespace Narrow

variable {cs : List Char} {n n' : Nat}

/-- The empty beginning is narrow. -/
theorem zero (cs : List Char) : Narrow cs 0 := ⟨Nat.zero_le _, by simp⟩

/-- An ASCII character in front of what is narrow is narrow with it. -/
theorem cons {c : Char} (hc : c.toNat < 128) (h : Narrow cs n) : Narrow (c :: cs) (n + 1) := by
  refine ⟨Nat.succ_le_succ h.le, ?_⟩
  rw [List.take_succ_cons]
  exact List.forall_mem_cons.mpr ⟨hc, h.lt⟩

/-- A first character that is an ASCII character is narrow. -/
theorem one {c : Char} (hc : c.toNat < 128) (h : cs.head? = some c) : Narrow cs 1 := by
  obtain ⟨rest, rfl⟩ := List.head?_eq_some_iff.mp h
  exact (zero rest).cons hc

/-- Two narrow stretches in a row are narrow. -/
theorem add (h : Narrow cs n) (h' : Narrow (cs.drop n) n') : Narrow cs (n + n') := by
  have hle := h.le
  have hle' := h'.le
  rw [List.length_drop] at hle'
  refine ⟨by omega, ?_⟩
  rw [List.take_add]
  exact List.forall_mem_append.mpr ⟨h.lt, h'.lt⟩

/-- A run of a class of ASCII characters is narrow. -/
theorem takeWhile {p : Char → Bool} (hp : Low p) (cs : List Char) :
    Narrow cs (cs.takeWhile p).length := by
  refine ⟨(List.takeWhile_prefix p).length_le, ?_⟩
  rw [← List.prefix_iff_eq_take.mp (List.takeWhile_prefix p)]
  intro c hc
  exact hp c (List.all_eq_true.mp List.all_takeWhile c hc)

/-- A narrow beginning has as many bytes as characters. -/
theorem byteLength_take (h : Narrow cs n) : byteLength (cs.take n) = n := by
  rw [byteLength_eq_length h.lt, List.length_take, Nat.min_eq_left h.le]

/-- A narrow beginning leads to the next place. -/
theorem dropBytes? {text : List Char} {i : Nat} (h : Narrow cs n)
    (hplace : Text.dropBytes? text i = some cs) :
    Text.dropBytes? text (i + n) = some (cs.drop n) := by
  have hnext := dropBytes?_of_dropBytes? hplace (List.take_append_drop n cs).symm
  rwa [h.byteLength_take] at hnext

end Narrow

/-! ## What is recognized at a place -/

/-- Measuring at an offset is recognizing the text from there on, if the offset is a boundary. -/
theorem measureAt?_eq_bind (recognize : List Char → Option Nat) (source : String) (start : Nat) :
    measureAt? recognize source start = (dropBytes? source.toList start).bind fun cs =>
      (recognize cs).map fun n => byteLength (cs.take n) := by
  cases hplace : dropBytes? source.toList start with
  | none => rw [measureAt?, hplace]; rfl
  | some cs => rw [measureAt?_eq_map hplace, Option.bind_some]

/-- A recognizer of what a grammar says accepts that much of a source.  The grammar may look at what
    follows. -/
theorem measureAt?_eq_some_iff {recognize : List Char → Option Nat}
    {grammar : (part rest : List Char) → Prop}
    (hgrammar : ∀ cs k, recognize cs = some k ↔
      ∃ part rest, cs = part ++ rest ∧ part.length = k ∧ grammar part rest)
    {source : String} {start n : Nat} :
    measureAt? recognize source start = some n ↔
      ∃ part rest, dropBytes? source.toList start = some (part ++ rest) ∧
        byteLength part = n ∧ grammar part rest := by
  rw [measureAt?_eq_bind, Option.bind_eq_some_iff]
  constructor
  · rintro ⟨cs, hplace, hcs⟩
    obtain ⟨k, hk, rfl⟩ := Option.map_eq_some_iff.mp hcs
    obtain ⟨part, rest, rfl, rfl, hpart⟩ := (hgrammar cs k).mp hk
    exact ⟨part, rest, hplace, by rw [List.take_left], hpart⟩
  · rintro ⟨part, rest, hplace, rfl, hpart⟩
    refine ⟨part ++ rest, hplace, ?_⟩
    rw [(hgrammar _ _).mpr ⟨part, rest, rfl, rfl, hpart⟩, Option.map_some, List.take_left]

/-- What is recognized at a place ends at a place. -/
theorem map_byteLength_eq_some {text cs : List Char} {recognized : Option Nat}
    {start stop n : Nat} (hplace : dropBytes? text start = some cs)
    (hrecognized : recognized = some n)
    (hstop : dropBytes? text stop = some (cs.drop n)) :
    (recognized.map fun n => byteLength (cs.take n)) = some (stop - start) := by
  rw [hrecognized, Option.map_some, sub_eq_byteLength_take hplace hstop]

/-- A reader of bytes that looks for `c` first, against a recognizer of characters that needs it. -/
theorem eq_bind_of_opener {β : Type} {text : List Char} {start : Nat} {c : Char}
    {recognize : List Char → Option β} {answer : Except PastEnd (Option β)}
    (hc : c.toNat < 128)
    (hfirst : ∀ cs : List Char, cs.head? ≠ some c → recognize cs = none)
    (habsent : (encode text)[start]? ≠ some c.toUInt8 → answer = .ok none)
    (hthere : (encode text)[start]? = some c.toUInt8 → ∀ rest,
      dropBytes? text start = some (c :: rest) → answer = .ok (recognize (c :: rest))) :
    answer = .ok ((dropBytes? text start).bind recognize) := by
  by_cases hbyte : (encode text)[start]? = some c.toUInt8
  · obtain ⟨rest, hplace⟩ := exists_of_getElem?_eq hc hbyte
    rw [hthere hbyte rest hplace, hplace, Option.bind_some]
  · rw [habsent hbyte]
    cases hplace : dropBytes? text start with
    | none => rfl
    | some cs =>
      rw [Option.bind_some, hfirst cs (mt (getElem?_encode_eq_some_iff hplace hc).mpr hbyte)]

end ProseLens.Text
