import Mathlib.Data.List.Find
import ProseLens.Proofs.Text.Octets
import ProseLens.Proofs.Token.LineBreak

/-!
# The grammars of dimensions and of verbatim text

Dimensions and verbatim text are recognized in one pass that never goes back.  What is accepted is
nevertheless what a grammar with optional parts says (`IsDimension`, `IsDelimited`): after a sign,
after digits and after a fraction comes a character that could not have been part of them, and a
delimiter ends what is delimited where it first occurs again.

The delimiters of a dimension may be any two characters.  A reader of bytes may also be given two
bytes that are none, and accepts the same grammar then.

## Key results

- `dimension?_eq_some_iff`, `dimensionInBytes?_eq_some_iff`: dimensions
- `dimensionInBytes?_encode`: for the delimiters that are characters below 128, both agree
- `verbatim?_eq_some_iff`: verbatim text
-/

namespace ProseLens.Token

open Text

/-! ## Dimensions -/

/-- A minus sign or nothing. -/
def IsSign (cs : List Char) : Prop := cs = [] ∨ cs = ['-']

/-- Any number of digits. -/
def AreDigits (cs : List Char) : Prop := ∀ c ∈ cs, c.isDigit = true

/-- A point with at least one digit after it, or nothing. -/
def IsFraction (cs : List Char) : Prop :=
  cs = [] ∨ ∃ digits, cs = '.' :: digits ∧ digits ≠ [] ∧ AreDigits digits

/-- An opener, an optional sign, any number of digits, an optional fraction, a unit and a closer. -/
def IsDimension (opening closing : Char) (part : List Char) : Prop :=
  ∃ sign whole fraction unit,
    part = opening :: (sign ++ (whole ++ (fraction ++ (unit ++ [closing])))) ∧
      IsSign sign ∧ AreDigits whole ∧ IsFraction fraction ∧ unit ∈ units

/-- A unit is two letters. -/
theorem exists_eq_of_mem_units {unit : List Char} (h : unit ∈ units) :
    ∃ c d, unit = [c, d] ∧ c.isDigit = false ∧ c ≠ '-' ∧ c ≠ '.' ∧ c.toNat < 128 ∧
      d.toNat < 128 := by
  simp only [units, List.mem_cons, List.not_mem_nil, or_false] at h
  rcases h with rfl | rfl | rfl | rfl | rfl | rfl | rfl | rfl | rfl <;>
    exact ⟨_, _, rfl, by decide, by decide, by decide, by decide, by decide⟩

/-- What is read as a sign is one. -/
theorem isSign_take (cs : List Char) : IsSign (cs.take (signLength cs)) := by
  unfold signLength
  split
  · next hhead =>
    obtain ⟨rest, rfl⟩ := List.head?_eq_some_iff.mp hhead
    exact .inr rfl
  · exact .inl rfl

/-- What is read as digits are digits. -/
theorem areDigits_take (cs : List Char) : AreDigits (cs.take (digitRun cs)) := by
  rw [digitRun, ← List.prefix_iff_eq_take.mp (List.takeWhile_prefix _)]
  exact List.all_eq_true.mp List.all_takeWhile

/-- What is read as a fraction is one. -/
theorem isFraction_take (cs : List Char) : IsFraction (cs.take (fractionLength cs)) := by
  unfold fractionLength
  split
  · next cs =>
    split
    · exact .inl rfl
    · next hdigits =>
      refine .inr ⟨cs.take (digitRun cs), ?_, ?_, areDigits_take cs⟩
      · rw [Nat.add_comm, List.take_succ_cons]
      · have hle := (onLine_digitRun cs).le
        rw [← List.length_pos_iff, List.length_take]
        omega
  · exact .inl rfl

/-- The number at the beginning of a text has the parts that it should have. -/
theorem exists_quantity (cs : List Char) : ∃ sign whole fraction,
    cs = sign ++ (whole ++ (fraction ++ cs.drop (quantityLength cs))) ∧
      quantityLength cs = sign.length + whole.length + fraction.length ∧
      IsSign sign ∧ AreDigits whole ∧ IsFraction fraction := by
  have hsign := (onLine_signLength cs).le
  have hwhole := (onLine_digitRun (cs.drop (signLength cs))).le
  have hfraction := (onLine_fractionLength
    (cs.drop (signLength cs + digitRun (cs.drop (signLength cs))))).le
  rw [List.length_drop] at hwhole hfraction
  refine ⟨_, _, _, ?_, ?_, isSign_take cs, areDigits_take (cs.drop (signLength cs)),
    isFraction_take (cs.drop (signLength cs + digitRun (cs.drop (signLength cs))))⟩
  · have hnext (n m : Nat) : (cs.drop n).take m ++ cs.drop (n + m) = cs.drop n := by
      rw [← List.drop_drop, List.take_append_drop]
    rw [quantityLength, hnext, hnext, List.take_append_drop]
  · simp only [quantityLength, List.length_take, List.length_drop]
    omega

section Append

variable {sign whole fraction rest : List Char}

/-- A sign is read as a whole where no other sign follows. -/
theorem signLength_append (hsign : IsSign sign) (hrest : rest.head? ≠ some '-') :
    signLength (sign ++ rest) = sign.length := by
  rcases hsign with rfl | rfl
  · exact if_neg hrest
  · rfl

/-- Digits are read as a whole where no other digit follows. -/
theorem digitRun_append (hwhole : AreDigits whole) (hrest : ∀ c ∈ rest.head?, c.isDigit = false) :
    digitRun (whole ++ rest) = whole.length := by
  have hnone : rest.takeWhile Char.isDigit = [] := by
    cases rest with
    | nil => rfl
    | cons c rest => exact List.takeWhile_cons_of_neg (by simp [hrest c rfl])
  rw [digitRun, List.takeWhile_append_of_pos hwhole, hnone, List.append_nil]

/-- A fraction is read as a whole where no digit and no other fraction follows. -/
theorem fractionLength_append (hfraction : IsFraction fraction)
    (hrest : ∀ c ∈ rest.head?, c.isDigit = false ∧ c ≠ '.') :
    fractionLength (fraction ++ rest) = fraction.length := by
  rcases hfraction with rfl | ⟨digits, rfl, hne, hdigits⟩
  · exact fractionLength_of_head?_ne fun hhead => (hrest '.' hhead).2 rfl
  · have hrun := digitRun_append hdigits fun c hc => (hrest c hc).1
    have hpos := List.length_pos_iff.mpr hne
    rw [List.cons_append, fractionLength, hrun, if_neg (Nat.ne_of_gt hpos), List.length_cons,
      Nat.add_comm]

/-- What could not go on with a number ends it. -/
theorem quantityLength_append (hsign : IsSign sign) (hwhole : AreDigits whole)
    (hfraction : IsFraction fraction)
    (hrest : ∀ c ∈ rest.head?, c.isDigit = false ∧ c ≠ '-' ∧ c ≠ '.') :
    quantityLength (sign ++ (whole ++ (fraction ++ rest))) =
      sign.length + whole.length + fraction.length := by
  have hafterWhole : ∀ c ∈ (fraction ++ rest).head?, c.isDigit = false ∧ c ≠ '-' := by
    rcases hfraction with rfl | ⟨digits, rfl, -, -⟩
    · exact fun c hc => ⟨(hrest c hc).1, (hrest c hc).2.1⟩
    · intro c hc
      obtain rfl := Option.some.inj hc
      decide
  -- a sign ends where the digits begin, or the fraction, or the rest
  have hafterSign : (whole ++ (fraction ++ rest)).head? ≠ some '-' := by
    cases whole with
    | nil => exact fun hhead => (hafterWhole '-' hhead).2 rfl
    | cons c whole =>
      intro hhead
      have hdigit := hwhole c List.mem_cons_self
      rw [Option.some.inj hhead] at hdigit
      exact absurd hdigit (by decide)
  rw [quantityLength, signLength_append hsign hafterSign, List.drop_left,
    digitRun_append hwhole fun c hc => (hafterWhole c hc).1, ← List.drop_drop, List.drop_left,
    List.drop_left, fractionLength_append hfraction fun c hc => ⟨(hrest c hc).1, (hrest c hc).2.2⟩]

end Append

section Dimension

variable {opening closing : Char} {cs : List Char} {n : Nat}

/-- What is accepted as a dimension. -/
theorem dimension?_eq_some_iff : dimension? opening closing cs = some n ↔
    ∃ part rest, cs = part ++ rest ∧ part.length = n ∧ IsDimension opening closing part := by
  constructor
  · intro h
    cases cs with
    | nil => cases h
    | cons c cs =>
      rw [dimension?] at h
      split at h
      · next hunit =>
        obtain ⟨rfl, hany, hclosing⟩ := hunit
        obtain ⟨sign, whole, fraction, hcs, hquantity, hsign, hwhole, hfraction⟩ :=
          exists_quantity cs
        obtain ⟨unit, hunit, hstarts⟩ := List.any_eq_true.mp hany
        obtain ⟨after, hafter⟩ := startsWith_iff.mp hstarts
        obtain ⟨a, b, rfl, -⟩ := exists_eq_of_mem_units hunit
        rw [hafter] at hclosing hcs
        obtain ⟨rest, rfl⟩ := List.head?_eq_some_iff.mp hclosing
        refine ⟨_, rest, ?_, ?_, sign, whole, fraction, _, rfl, hsign, hwhole, hfraction, hunit⟩
        · rw [hcs]
          simp only [List.cons_append, List.append_assoc, List.nil_append]
        · rw [← Option.some.inj h, hquantity]
          simp only [List.length_cons, List.length_append, List.length_nil]
          omega
      · cases h
  -- the unit behind the quantity begins with a letter, which is what ends the quantity
  · rintro ⟨_, rest, rfl, rfl, sign, whole, fraction, unit, rfl, hsign, hwhole, hfraction, hunit⟩
    obtain ⟨a, b, rfl, hdigit, hminus, hpoint, -⟩ := exists_eq_of_mem_units hunit
    have hends : ∀ c ∈ (a :: b :: closing :: rest).head?,
        c.isDigit = false ∧ c ≠ '-' ∧ c ≠ '.' := by
      intro c hc
      obtain rfl := Option.some.inj hc
      exact ⟨hdigit, hminus, hpoint⟩
    have hquantity := quantityLength_append hsign hwhole hfraction hends
    have hdrop : (sign ++ (whole ++ (fraction ++ a :: b :: closing :: rest))).drop
        (sign.length + whole.length + fraction.length) = a :: b :: closing :: rest := by
      rw [← List.drop_drop, ← List.drop_drop, List.drop_left, List.drop_left, List.drop_left]
    have hany : units.any (startsWith (a :: b :: closing :: rest)) = true :=
      List.any_eq_true.mpr ⟨_, hunit, startsWith_iff.mpr ⟨closing :: rest, rfl⟩⟩
    simp only [List.cons_append, List.append_assoc, List.nil_append, dimension?, hquantity, hdrop]
    rw [if_pos ⟨trivial, hany, rfl⟩]
    simp only [List.length_cons, List.length_append, List.length_nil, Option.some.injEq]
    omega

/-- Where no digit follows it, the point is not passed over, so that no unit comes next. -/
example : dimension? '{' '}' "{12.pt}".toList = none := by decide

/-- A dimension between delimiters below 128 has a byte for each of its characters. -/
theorem IsDimension.low {part : List Char} (h : IsDimension opening closing part)
    (hopening : opening.toNat < 128) (hclosing : closing.toNat < 128) :
    part ≠ [] ∧ ∀ c ∈ part, c.toNat < 128 := by
  obtain ⟨sign, whole, fraction, unit, rfl, hsign, hwhole, hfraction, hunit⟩ := h
  -- part by part: signs, digits, points and units are ASCII characters
  have hdigits {cs : List Char} (hcs : AreDigits cs) : ∀ c ∈ cs, c.toNat < 128 :=
    fun c hc => low_isDigit c (hcs c hc)
  have hsign' : ∀ c ∈ sign, c.toNat < 128 := by
    rcases hsign with rfl | rfl <;> simp
  have hfraction' : ∀ c ∈ fraction, c.toNat < 128 := by
    rcases hfraction with rfl | ⟨digits, rfl, -, hcs⟩
    · simp
    · exact List.forall_mem_cons.mpr ⟨by decide, hdigits hcs⟩
  have hunit' : ∀ c ∈ unit, c.toNat < 128 := by
    obtain ⟨a, b, rfl, -, -, -, ha, hb⟩ := exists_eq_of_mem_units hunit
    simp [ha, hb]
  simp only [List.forall_mem_cons, List.forall_mem_append]
  exact ⟨by simp, hopening, hsign', hdigits hwhole, hfraction', hunit', hclosing, by simp⟩

end Dimension

/-! ## Dimensions among bytes -/

section InBytes

variable (bytes : List UInt8)

/-- The end of a decimal fraction that may begin at an offset, or the offset if there is none. -/
def fractionEnd (point : Nat) : Except PastEnd Nat :=
  if bytes[point]? = some '.'.toUInt8 then do
    let digits := ((← bytesFrom bytes (point + 1)).takeWhile (onByte Char.isDigit)).length
    return if 0 < digits then point + 1 + digits else point
  else return point

/-- The end of the number that begins at an offset. -/
def quantityEnd (sign : Nat) : Except PastEnd Nat := do
  let whole := if bytes[sign]? = some '-'.toUInt8 then sign + 1 else sign
  let digits := ((← bytesFrom bytes whole).takeWhile (onByte Char.isDigit)).length
  fractionEnd bytes (whole + digits)

/-- A dimension between two delimiters. -/
def dimensionInBytes? (opening closing : UInt8) (start : Nat) : Except PastEnd (Option Nat) :=
  if bytes[start]? = some opening then do
    let stop ← quantityEnd bytes (start + 1)
    let tail ← bytesFrom bytes stop
    return (units.find? fun unit => (unit.map Char.toUInt8).isPrefixOf tail).bind fun unit =>
      let last := stop + unit.length
      if bytes[last]? = some closing then some (last + 1 - start) else none
  else return none

/-- The bytes from an offset on, each taken for the character of its code. -/
def charactersFrom (start : Nat) : List Char := (bytes.drop start).map Char.ofUInt8

variable (start : Nat)

/-- The byte at an offset is the first character from there on. -/
theorem getElem?_eq_some_iff_head? (b : UInt8) :
    bytes[start]? = some b ↔ (charactersFrom bytes start).head? = some (Char.ofUInt8 b) := by
  have hinjective {a : UInt8} : Char.ofUInt8 a = Char.ofUInt8 b ↔ a = b := by
    constructor
    · intro h
      rw [← toUInt8_ofUInt8 a, h, toUInt8_ofUInt8]
    · rintro rfl
      rfl
  rw [charactersFrom, List.head?_map, List.head?_drop, Option.map_eq_some_iff]
  simp only [hinjective, exists_eq_right]

/-- An ASCII character stands at an offset if its byte does. -/
theorem getElem?_eq_toUInt8_iff {c : Char} (hc : c.toNat < 128) :
    bytes[start]? = some c.toUInt8 ↔ (charactersFrom bytes start).head? = some c := by
  rw [getElem?_eq_some_iff_head?, ofUInt8_toUInt8 hc]

/-- The characters from a later offset on are what is left of those before it. -/
theorem charactersFrom_add (n : Nat) :
    charactersFrom bytes (start + n) = (charactersFrom bytes start).drop n := by
  rw [charactersFrom, charactersFrom, ← List.map_drop, List.drop_drop]

/-- Digits are counted alike in bytes and in characters. -/
theorem digitRun_charactersFrom :
    digitRun (charactersFrom bytes start) =
      ((bytes.drop start).takeWhile (onByte Char.isDigit)).length := by
  rw [digitRun, charactersFrom, List.takeWhile_map, List.length_map]
  rfl

variable {bytes start}

/-- Behind the first character are those from the next byte on. -/
theorem charactersFrom_succ {c : Char} {cs : List Char} (h : charactersFrom bytes start = c :: cs) :
    charactersFrom bytes (start + 1) = cs := by
  rw [charactersFrom_add, h, List.drop_succ_cons, List.drop_zero]

/-- The fraction ends where its characters do. -/
theorem fractionEnd_eq :
    fractionEnd bytes start = .ok (start + fractionLength (charactersFrom bytes start)) := by
  have hpoint := getElem?_eq_toUInt8_iff bytes start (c := '.') (by decide)
  by_cases hhead : (charactersFrom bytes start).head? = some '.'
  · have hle := (List.getElem?_eq_some_iff.mp (hpoint.mpr hhead)).1
    obtain ⟨cs, hcs⟩ := List.head?_eq_some_iff.mp hhead
    rw [fractionEnd, if_pos (hpoint.mpr hhead), bytesFrom_of_le hle, ok_bind,
      ← digitRun_charactersFrom, charactersFrom_succ hcs, hcs, fractionLength]
    refine congrArg Except.ok ?_
    -- a point without digits is no fraction
    by_cases hzero : digitRun cs = 0
    · rw [if_pos hzero, if_neg (by omega)]
      rfl
    · rw [if_neg hzero, if_pos (by omega), Nat.add_assoc]
  · rw [fractionEnd, if_neg (mt hpoint.mp hhead), fractionLength_of_head?_ne hhead]
    rfl

/-- The number that is read is the one that the characters begin with, and it is there. -/
theorem quantityEnd_eq (hle : start ≤ bytes.length) :
    quantityEnd bytes start = .ok (start + quantityLength (charactersFrom bytes start)) ∧
      start + quantityLength (charactersFrom bytes start) ≤ bytes.length := by
  have hlength : (charactersFrom bytes start).length = bytes.length - start := by
    rw [charactersFrom, List.length_map, List.length_drop]
  have hsign := (onLine_signLength (charactersFrom bytes start)).le
  have hquantity := (onLine_quantityLength (charactersFrom bytes start)).le
  -- each part begins where the one before it has ended, and none lies past the end
  have hwhole : (if bytes[start]? = some '-'.toUInt8 then start + 1 else start) =
      start + signLength (charactersFrom bytes start) := by
    simp only [getElem?_eq_toUInt8_iff bytes start (c := '-') (by decide), signLength]
    split <;> rfl
  refine ⟨?_, by omega⟩
  simp only [quantityEnd, hwhole, quantityLength]
  rw [bytesFrom_of_le (by omega), ok_bind, ← digitRun_charactersFrom, fractionEnd_eq,
    charactersFrom_add, Nat.add_assoc start, charactersFrom_add, Nat.add_assoc]

/-- A front of ASCII characters is found alike in bytes and in characters. -/
theorem map_toUInt8_prefix_iff {front : List Char} (hfront : ∀ c ∈ front, c.toNat < 128) :
    front.map Char.toUInt8 <+: bytes.drop start ↔ front <+: charactersFrom bytes start := by
  have hback : (front.map Char.toUInt8).map Char.ofUInt8 = front := by
    rw [List.map_map, List.map_congr_left (g := id), List.map_id]
    exact fun c hc => ofUInt8_toUInt8 (hfront c hc)
  constructor
  · rintro ⟨rest, hrest⟩
    refine ⟨rest.map Char.ofUInt8, ?_⟩
    rw [charactersFrom, ← hrest, List.map_append, hback]
  · rintro ⟨rest, hrest⟩
    obtain ⟨bs, bs', hbytes, rfl, -⟩ := List.map_eq_append_iff.mp hrest.symm
    -- bytes are told apart by the characters that they are taken for
    have hbs : (bs.map Char.ofUInt8).map Char.toUInt8 = bs := by
      rw [List.map_map, List.map_congr_left (g := id), List.map_id]
      exact fun b _ => toUInt8_ofUInt8 b
    rw [hbs, hbytes]
    exact List.prefix_append bs bs'

/-- A unit is found alike in bytes and in characters. -/
theorem find?_units :
    (units.find? fun unit => (unit.map Char.toUInt8).isPrefixOf (bytes.drop start)) =
      units.find? (startsWith (charactersFrom bytes start)) := by
  refine List.find?_congr fun unit hunit => ?_
  obtain ⟨a, b, rfl, -, -, -, ha, hb⟩ := exists_eq_of_mem_units hunit
  rw [Bool.eq_iff_iff, List.isPrefixOf_iff_prefix, map_toUInt8_prefix_iff (by simp [ha, hb]),
    startsWith_iff]
  exact ⟨fun ⟨rest, h⟩ => ⟨rest, h.symm⟩, fun ⟨rest, h⟩ => ⟨rest, h.symm⟩⟩

/-- The reader accepts what is accepted of the characters with these codes. -/
theorem dimensionInBytes?_eq_dimension? (opening closing : UInt8) :
    dimensionInBytes? bytes opening closing start =
      .ok (dimension? (Char.ofUInt8 opening) (Char.ofUInt8 closing)
        (charactersFrom bytes start)) := by
  have hopen := getElem?_eq_some_iff_head? bytes start opening
  -- the reader asks for the opening delimiter, then for the quantity, the unit and the closing one
  by_cases hhead : (charactersFrom bytes start).head? = some (Char.ofUInt8 opening)
  · obtain ⟨cs, hcs⟩ := List.head?_eq_some_iff.mp hhead
    have hnext := charactersFrom_succ hcs
    obtain ⟨hquantity, hle⟩ :=
      quantityEnd_eq (List.getElem?_eq_some_iff.mp (hopen.mpr hhead)).1
    rw [hnext] at hquantity hle
    rw [dimensionInBytes?, if_pos (hopen.mpr hhead), hquantity, ok_bind, bytesFrom_of_le hle,
      ok_bind, find?_units, charactersFrom_add, hnext, hcs, dimension?]
    refine congrArg Except.ok ?_
    cases hunit : units.find? (startsWith (cs.drop (quantityLength cs))) with
    | none =>
      have hany : units.any (startsWith (cs.drop (quantityLength cs))) = false := by
        rw [List.any_eq_false]
        exact List.find?_eq_none.mp hunit
      simp only [hany, Bool.false_eq_true, false_and, and_false, if_false]
      rfl
    | some unit =>
      obtain ⟨a, b, rfl, -⟩ := exists_eq_of_mem_units (List.mem_of_find?_eq_some hunit)
      have hany : units.any (startsWith (cs.drop (quantityLength cs))) = true :=
        List.any_eq_true.mpr ⟨_, List.mem_of_find?_eq_some hunit, List.find?_some hunit⟩
      have hclosing := getElem?_eq_some_iff_head? bytes
        (start + 1 + quantityLength cs + [a, b].length) closing
      rw [charactersFrom_add, charactersFrom_add, hnext] at hclosing
      have hlast : start + 1 + quantityLength cs + [a, b].length + 1 - start =
          quantityLength cs + 4 := by
        rw [List.length_cons, List.length_cons, List.length_nil]
        omega
      simp only [Option.bind_some, hclosing, hlast, hany, true_and]
      rfl
  · rw [dimensionInBytes?, if_neg (mt hopen.mp hhead)]
    refine congrArg Except.ok ?_
    cases hcs : charactersFrom bytes start with
    | nil => rfl
    | cons c cs =>
      rw [hcs, List.head?_cons, Option.some.injEq] at hhead
      rw [dimension?, if_neg fun h => hhead h.1]

/-- What the reader accepts. -/
theorem dimensionInBytes?_eq_some_iff {opening closing : UInt8} {n : Nat} :
    dimensionInBytes? bytes opening closing start = .ok (some n) ↔
      ∃ part rest, bytes.drop start = part ++ rest ∧ part.length = n ∧
        IsDimension (Char.ofUInt8 opening) (Char.ofUInt8 closing) (part.map Char.ofUInt8) := by
  rw [dimensionInBytes?_eq_dimension?, Except.ok.injEq, dimension?_eq_some_iff]
  constructor
  · rintro ⟨_, _, hsplit, rfl, hpart⟩
    obtain ⟨part, rest, hbytes, rfl, rfl⟩ := List.map_eq_append_iff.mp hsplit
    exact ⟨part, rest, hbytes, (List.length_map _).symm, hpart⟩
  · rintro ⟨part, rest, hbytes, rfl, hpart⟩
    refine ⟨_, rest.map Char.ofUInt8, ?_, List.length_map _, hpart⟩
    rw [charactersFrom, hbytes, List.map_append]

end InBytes

/-- A text of characters below 128 stands among the bytes of a text where it stands in that text. -/
theorem prefix_charactersFrom_encode_iff {text part : List Char} {start : Nat} (hne : part ≠ [])
    (hpart : ∀ c ∈ part, c.toNat < 128) :
    part <+: charactersFrom (encode text) start ↔
      ∃ rest, dropBytes? text start = some (part ++ rest) := by
  constructor
  · intro hprefix
    induction part generalizing start with
    | nil => exact absurd rfl hne
    | cons c part ih =>
      rw [List.forall_mem_cons] at hpart
      obtain ⟨after, hafter⟩ := hprefix
      have hbyte := (getElem?_eq_toUInt8_iff (encode text) start hpart.1).mpr
        (by rw [← hafter]; rfl)
      -- the byte of an ASCII character begins that character in the text
      obtain ⟨rest, hplace⟩ := exists_of_getElem?_eq hpart.1 hbyte
      have hnext := dropBytes?_succ hplace hpart.1
      rw [hplace]
      by_cases hlast : part = []
      · exact ⟨rest, by rw [hlast]; rfl⟩
      · have hmore := charactersFrom_succ hafter.symm
        obtain ⟨rest', hrest'⟩ := ih hlast hpart.2 ⟨after, hmore.symm⟩
        rw [hnext, Option.some.injEq] at hrest'
        exact ⟨rest', by rw [hrest']; rfl⟩
  · rintro ⟨rest, hplace⟩
    rw [← map_toUInt8_prefix_iff hpart, drop_encode hplace, encode_append, encode_eq_map hpart]
    exact List.prefix_append _ _

/-- Between delimiters that are characters below 128 the reader finds what is recognized. -/
theorem dimensionInBytes?_encode {opening closing : Char} (hopening : opening.toNat < 128)
    (hclosing : closing.toNat < 128) (source : String) (start : Nat) :
    dimensionInBytes? (encode source.toList) opening.toUInt8 closing.toUInt8 start =
      .ok (measureAt? (dimension? opening closing) source start) := by
  rw [dimensionInBytes?_eq_dimension?, ofUInt8_toUInt8 hopening, ofUInt8_toUInt8 hclosing]
  refine congrArg Except.ok (Option.ext fun n => ?_)
  rw [dimension?_eq_some_iff, measureAt?_eq_some_iff fun cs k => dimension?_eq_some_iff]
  -- a length in the bytes is one of the text, because it is written with ASCII characters
  constructor
  · rintro ⟨part, after, hafter, rfl, hpart⟩
    obtain ⟨hne, hlow⟩ := hpart.low hopening hclosing
    obtain ⟨rest, hplace⟩ :=
      (prefix_charactersFrom_encode_iff hne hlow).mp (hafter ▸ List.prefix_append part after)
    exact ⟨part, rest, hplace, byteLength_eq_length hlow, hpart⟩
  · rintro ⟨part, rest, hplace, rfl, hpart⟩
    obtain ⟨hne, hlow⟩ := hpart.low hopening hclosing
    obtain ⟨after, hafter⟩ := (prefix_charactersFrom_encode_iff hne hlow).mpr ⟨rest, hplace⟩
    exact ⟨part, after, hafter.symm, (byteLength_eq_length hlow).symm, hpart⟩

/-! ## Verbatim text -/

/-- A delimiter, text that is free of it, and the delimiter again, all on one line. -/
def IsDelimited (part : List Char) : Prop :=
  ∃ delimiter inner, part = delimiter :: (inner ++ [delimiter]) ∧ delimiter ∉ inner ∧
    Unbroken (delimiter :: inner)

/-- A command with delimited text after it. -/
def IsVerbatim (command part : List Char) : Prop :=
  ∃ inner, part = command ++ inner ∧ IsDelimited inner

/-- A delimited text is one of the grammar: a delimiter, what is between, and the delimiter again.
    -/
theorem delimited?_eq_some_iff {cs : List Char} {n : Nat} :
    delimited? cs = some n ↔
      ∃ part rest, cs = part ++ rest ∧ part.length = n ∧ IsDelimited part := by
  constructor
  · intro h
    cases cs with
    | nil => cases h
    | cons delimiter cs =>
      rw [delimited?] at h
      split at h
      · cases h
      · next hline =>
        obtain ⟨k, hk, rfl⟩ := Option.map_eq_some_iff.mp h
        obtain ⟨inner, after, hinner, rfl, hfree⟩ := findIdx?_beq_eq_some_iff.mp hk
        obtain ⟨tail, hcs⟩ := List.takeWhile_prefix (fun c => !isLineEnd c) (l := cs)
        -- what is taken of the line holds no line end
        have hclass : ∀ c ∈ inner, isLineEnd c = false := by
          intro c hc
          have hmem : c ∈ cs.takeWhile fun c => !isLineEnd c := by
            rw [hinner]
            exact List.mem_append_left _ hc
          simpa using List.all_eq_true.mp List.all_takeWhile c hmem
        rw [hinner] at hcs
        refine ⟨delimiter :: (inner ++ [delimiter]), after ++ tail, ?_, ?_, delimiter, inner, rfl,
          hfree, ?_⟩
        · rw [← hcs]
          simp only [List.cons_append, List.append_assoc, List.nil_append]
        · rw [List.length_cons, List.length_append]
          rfl
        · exact List.forall_mem_cons.mpr ⟨Bool.eq_false_iff.mpr hline, hclass⟩
  · rintro ⟨_, rest, rfl, rfl, delimiter, inner, rfl, hfree, hline⟩
    rw [Unbroken, List.forall_mem_cons] at hline
    have htake : (inner ++ delimiter :: rest).takeWhile (fun c => !isLineEnd c) =
        inner ++ delimiter :: rest.takeWhile fun c => !isLineEnd c := by
      rw [List.takeWhile_append_of_pos (by simpa using hline.2),
        List.takeWhile_cons_of_pos (by simp [hline.1])]
    rw [List.cons_append, List.append_assoc, List.singleton_append, delimited?, htake,
      findIdx?_beq_eq_some_iff.mpr ⟨inner, _, rfl, rfl, hfree⟩, if_neg (by simp [hline.1]),
      Option.map_some, List.length_cons, List.length_append]
    rfl

/-- Delimited text after a command, as a number of characters. -/
def delimitedAfter? (command cs : List Char) : Option Nat :=
  (stripFront? command cs).bind fun inner => (delimited? inner).map (· + command.length)

/-- Behind a command, a delimited text is verbatim text of that command. -/
theorem delimitedAfter?_eq_some_iff {command cs : List Char} {n : Nat} :
    delimitedAfter? command cs = some n ↔
      ∃ part rest, cs = part ++ rest ∧ part.length = n ∧ IsVerbatim command part := by
  rw [delimitedAfter?, Option.bind_eq_some_iff]
  constructor
  · rintro ⟨body, hbody, hdelimited⟩
    obtain ⟨k, hk, rfl⟩ := Option.map_eq_some_iff.mp hdelimited
    obtain ⟨inner, rest, rfl, rfl, hinner⟩ := delimited?_eq_some_iff.mp hk
    refine ⟨command ++ inner, rest, ?_, ?_, inner, rfl, hinner⟩
    · rw [stripFront?_eq_some_iff.mp hbody, List.append_assoc]
    · rw [List.length_append, Nat.add_comm]
  · rintro ⟨_, rest, rfl, rfl, inner, rfl, hinner⟩
    refine ⟨inner ++ rest, ?_, ?_⟩
    · rw [List.append_assoc, stripFront?_append]
    · rw [delimited?_eq_some_iff.mpr ⟨inner, rest, rfl, rfl, hinner⟩, Option.map_some,
        List.length_append, Nat.add_comm]

/-- The star belongs to the command if it can. -/
theorem verbatim?_eq_or (cs : List Char) :
    verbatim? cs =
      (delimitedAfter? "\\verb*".toList cs).or (delimitedAfter? "\\verb".toList cs) := by
  have hstarred : "\\verb*".toList = "\\verb".toList ++ ['*'] := rfl
  rw [verbatim?, delimitedAfter?, delimitedAfter?, hstarred, stripFront?_append_front]
  cases stripFront? "\\verb".toList cs with
  | none => rfl
  | some body =>
    dsimp only
    rw [Option.orElse_eq_orElse, Option.orElse_eq_or]
    split
    · rfl
    · next hstar =>
      -- without a star the starred command does not stand there
      have hnone : stripFront? ['*'] body = none := by
        rw [Option.eq_none_iff_forall_ne_some]
        intro inner hinner
        exact hstar inner (stripFront?_eq_some_iff.mp hinner)
      rw [Option.bind_some, hnone]
      rfl

/-- What is accepted as verbatim text. -/
theorem verbatim?_eq_some_iff {cs : List Char} {n : Nat} :
    verbatim? cs = some n ↔ ∃ part rest, cs = part ++ rest ∧ part.length = n ∧
      (IsVerbatim "\\verb*".toList part ∨ IsVerbatim "\\verb".toList part ∧
        ∀ other, other <+: part ++ rest → ¬ IsVerbatim "\\verb*".toList other) := by
  rw [verbatim?_eq_or, Option.or_eq_some_iff, delimitedAfter?_eq_some_iff,
    delimitedAfter?_eq_some_iff]
  constructor
  · rintro (⟨part, rest, rfl, hlength, hpart⟩ | ⟨hnone, part, rest, rfl, hlength, hpart⟩)
    · exact ⟨part, rest, rfl, hlength, .inl hpart⟩
    · refine ⟨part, rest, rfl, hlength, .inr ⟨hpart, ?_⟩⟩
      -- a starred reading would have been found first
      rintro other ⟨after, hother⟩ hstarred
      have hsome := delimitedAfter?_eq_some_iff.mpr ⟨other, after, hother.symm, rfl, hstarred⟩
      rw [hnone] at hsome
      exact nomatch hsome
  · rintro ⟨part, rest, rfl, hlength, hpart | ⟨hpart, hfirst⟩⟩
    · exact .inl ⟨part, rest, rfl, hlength, hpart⟩
    · refine .inr ⟨?_, part, rest, rfl, hlength, hpart⟩
      rw [Option.eq_none_iff_forall_ne_some]
      intro k hk
      obtain ⟨other, after, hother, -, hstarred⟩ := delimitedAfter?_eq_some_iff.mp hk
      exact hfirst other (hother ▸ List.prefix_append other after) hstarred

/-- The star is the delimiter where it cannot be part of the command. -/
example : verbatim? "\\verb*x*y*".toList = some 8 := by decide

/-! ## What is accepted -/

/-- At every byte of a source, what is accepted as a dimension or as verbatim text is what the
    grammar says, and of that many bytes.  This also holds of dimensions between any two bytes.  A
    star after the command of verbatim text is its delimiter only if it cannot be part of the
    command. -/
theorem dimensions_and_verbatim_follow_grammar (source : String) (start n : Nat) :
    (∀ opening closing : Char, measureAt? (dimension? opening closing) source start = some n ↔
      ∃ part, slice? source start (start + n) = some part ∧
        IsDimension opening closing part.toList) ∧
    (∀ opening closing : UInt8,
      dimensionInBytes? (encode source.toList) opening closing start = .ok (some n) ↔
        ∃ part rest, (encode source.toList).drop start = part ++ rest ∧ part.length = n ∧
          IsDimension (Char.ofUInt8 opening) (Char.ofUInt8 closing) (part.map Char.ofUInt8)) ∧
    (measureAt? verbatim? source start = some n ↔
      ∃ part, slice? source start (start + n) = some part ∧
        (IsVerbatim "\\verb*".toList part.toList ∨
          IsVerbatim "\\verb".toList part.toList ∧
            ∀ m other, slice? source start (start + m) = some other →
              ¬ IsVerbatim "\\verb*".toList other.toList)) := by
  refine ⟨fun opening closing => ?_, fun opening closing => dimensionInBytes?_eq_some_iff, ?_⟩
  · rw [exists_slice?_iff, measureAt?_eq_some_iff fun cs k => dimension?_eq_some_iff]
  · rw [exists_slice?_iff (p := fun part => IsVerbatim "\\verb*".toList part ∨
      IsVerbatim "\\verb".toList part ∧ ∀ m other, slice? source start (start + m) = some other →
        ¬ IsVerbatim "\\verb*".toList other.toList),
      measureAt?_eq_some_iff fun cs k => verbatim?_eq_some_iff]
    refine exists_congr fun part => exists_congr fun rest => and_congr_right fun hplace => ?_
    rw [forall_slice?_iff (p := fun other => ¬ IsVerbatim "\\verb*".toList other) hplace]

end ProseLens.Token
