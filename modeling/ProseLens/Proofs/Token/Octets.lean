import ProseLens.Proofs.Text.Octets
import ProseLens.Token.Accent
import ProseLens.Token.Control

/-!
# Recognizers that read bytes

The recognizers look at characters.  Here each is restated as a reader of the bytes of a source,
which keeps an offset and looks ahead with it: a byte that is asked for past the end is not there,
and the bytes from an offset on must not be asked for past the end (`Text.PastEnd`).  Such a reader
can be started anywhere, also inside a character.

It never asks for anything past the end, and finds what the recognizer finds, counted in bytes.

## Key results

- `controlInBytes?_eq`, `commentInBytes?_eq`, `blanksInBytes?_eq`, `groupInBytes?_eq`: the readers
  that find a number of bytes
- `accentInBytes?_eq`, `accentGroupInBytes?_eq`: those that find an accent
-/

namespace ProseLens.Token

open Text

/-! ## The readers -/

section Readers

variable (bytes : List UInt8)

/-- The number of bytes of the character at an offset, if there is anything.  What is no character
    counts as `invalid` says. -/
def characterSize? (invalid : List UInt8 → Nat) (offset : Nat) : Option Nat :=
  if offset ≤ bytes.length then
    match bytes.drop offset with
    | [] => none
    | tail => some ((tail.toByteArray.utf8DecodeChar? 0).elim (invalid tail) Char.utf8Size)
  else none

/-- A control sequence. -/
def controlInBytes? (invalid : List UInt8 → Nat) (start : Nat) : Except PastEnd (Option Nat) :=
  if bytes[start]? = some '\\'.toUInt8 then do
    let name := start + 1
    let letters := ((← bytesFrom bytes name).takeWhile (onByte isNameLetter)).length
    let size := if 0 < letters then some letters else characterSize? bytes invalid name
    return size.map fun size =>
      let stop := name + size
      (if bytes[stop]? = some '*'.toUInt8 then stop + 1 else stop) - start
  else return none

/-- The number of bytes of a line break. -/
def lineBreakSize? (offset : Nat) : Option Nat :=
  if bytes[offset]? = some '\n'.toUInt8 then some 1
  else if bytes[offset]? = some '\r'.toUInt8 then
    if bytes[offset + 1]? = some '\n'.toUInt8 then some 2 else some 1
  else none

/-- The end of a comment, from an offset in its line on. -/
def commentEnd (offset : Nat) : Except PastEnd Nat :=
  if offset < bytes.length then
    match lineBreakSize? bytes offset with
    | some size => do
      let next := offset + size
      return next + ((← bytesFrom bytes next).takeWhile (onByte isBlank)).length
    | none => commentEnd (offset + 1)
  else return offset
termination_by bytes.length - offset

/-- A comment. -/
def commentInBytes? (start : Nat) : Except PastEnd (Option Nat) :=
  if bytes[start]? = some '%'.toUInt8 then do
    return some ((← commentEnd bytes (start + 1)) - start)
  else return none

/-- A run of blanks, with the comment that directly follows it. -/
def blanksInBytes? (start : Nat) : Except PastEnd (Option Nat) :=
  if start ≤ bytes.length then
    let run := ((bytes.drop start).takeWhile (onByte isBlank)).length
    if run = 0 then return none
    else do return some (run + (← commentInBytes? bytes (start + run)).getD 0)
  else return none

/-- A group in braces. -/
def groupInBytes? (start : Nat) : Except PastEnd (Option Nat) :=
  if bytes[start]? = some '{'.toUInt8 then do
    return ((← bytesFrom bytes (start + 1)).findIdx? (onByte (· == '}'))).map (· + 2)
  else return none

/-- The base of an accent, with its number of bytes. -/
def baseInBytes? (offset : Nat) : Option (Char × Nat) :=
  bytes[offset]?.bind fun b =>
    if onByte Char.isAlpha b then some (Char.ofUInt8 b, 1)
    else if b = '\\'.toUInt8 then
      if bytes[offset + 1]? = some 'i'.toUInt8 then some ('\u0131', 2)
      else if bytes[offset + 1]? = some 'j'.toUInt8 then some ('\u0237', 2)
      else none
    else none

/-- The base of an accent in braces, with its number of bytes including the braces. -/
def bracedBaseInBytes? (offset : Nat) : Option (Char × Nat) :=
  if bytes[offset]? = some '{'.toUInt8 then
    (baseInBytes? bytes (offset + 1)).bind fun (base, size) =>
      let last := offset + 1 + size
      if bytes[last]? = some '}'.toUInt8 then some (base, last + 1 - offset) else none
  else none

/-- An accent command with its base. -/
def accentInBytes? (start : Nat) : Except PastEnd (Option Accent) :=
  if bytes[start]? = some '\\'.toUInt8 then
    match bytes[start + 1]? with
    | none => return none
    | some mark =>
      if onByte Accent.isMark mark then do
        let argument := start + 2
        let spaces := ((← bytesFrom bytes argument).takeWhile (onByte (· == ' '))).length
        let glued := onByte Char.isAlpha mark && spaces == 0 &&
          bytes[argument]?.any (onByte Char.isAlpha)
        match if glued then none else baseInBytes? bytes (argument + spaces) with
        | some (base, size) =>
          return some ⟨argument + spaces + size - start, Char.ofUInt8 mark, base⟩
        | none =>
          return (bracedBaseInBytes? bytes argument).map fun (base, size) =>
            ⟨argument + size - start, Char.ofUInt8 mark, base⟩
      else return none
  else return none

/-- An accent command with its base, all of it in braces. -/
def accentGroupInBytes? (start : Nat) : Except PastEnd (Option Accent) :=
  if bytes[start]? = some '{'.toUInt8 then do
    return (← accentInBytes? bytes (start + 1)).bind fun accent =>
      let last := start + 1 + accent.length
      if bytes[last]? = some '}'.toUInt8 then some { accent with length := accent.length + 2 }
      else none
  else return none

end Readers

/-! ## Control sequences -/

section Eq

variable (source : String) (start : Nat)

/-- A character that is there is measured by its bytes. -/
theorem characterSize?_encode {text cs : List Char} {c : Char} {offset : Nat}
    (h : dropBytes? text offset = some (c :: cs)) (invalid : List UInt8 → Nat) :
    characterSize? (encode text) invalid offset = some c.utf8Size := by
  have hdrop := drop_encode h
  obtain ⟨front, hfront, rfl⟩ := exists_append_of_dropBytes?_eq_some h
  have hle : byteLength front ≤ (encode text).length := by
    rw [← hfront, length_encode, byteLength_append]
    omega
  rw [characterSize?, if_pos hle, hdrop]
  -- the character has a first byte, so that something is there to decode
  obtain ⟨b, bs, hbytes, -⟩ := exists_utf8EncodeChar_eq_cons c
  rw [encode_cons, hbytes, List.cons_append]
  dsimp only
  rw [← List.cons_append, ← hbytes, List.toByteArray_append,
    ByteArray.utf8DecodeChar?_utf8EncodeChar_append]
  rfl

/-- At the end there is no character to measure. -/
theorem characterSize?_end {text : List Char} {offset : Nat} (h : dropBytes? text offset = some [])
    (invalid : List UInt8 → Nat) : characterSize? (encode text) invalid offset = none := by
  have hdrop := drop_encode h
  rw [characterSize?, hdrop]
  split <;> rfl

/-- The letters of names are ASCII characters. -/
theorem low_isNameLetter : Low isNameLetter := low_isAlpha.or (low_beq (by decide))

/-- The reader of control sequences finds what the recognizer finds. -/
theorem controlInBytes?_eq (invalid : List UInt8 → Nat) :
    controlInBytes? (encode source.toList) invalid start =
      .ok (measureAt? control? source start) := by
  rw [measureAt?_eq_bind]
  refine eq_bind_of_opener (c := '\\') (by decide) ?_ (fun h => if_neg h) ?_
  · intro cs hhead
    rw [control?_of_head?_ne hhead, Option.map_none]
  · intro hopen rest hplace
    have hname := dropBytes?_succ hplace (by decide)
    simp only [controlInBytes?, if_pos hopen, bytesFrom_encode hname, ok_bind,
      low_isNameLetter.length_takeWhile_encode]
    refine congrArg Except.ok ?_
    cases rest with
    | nil =>
      rw [characterSize?_end hname]
      rfl
    | cons c cs =>
      generalize hletters : ((c :: cs).takeWhile isNameLetter).length = letters
      -- the name is a run of letters or one character, and there is a place after it
      obtain ⟨size, hsize, hstop⟩ : ∃ size,
          (if 0 < letters then some letters
            else characterSize? (encode source.toList) invalid (start + 1)) = some size ∧
          dropBytes? source.toList (start + 1 + size) = some ((c :: cs).drop (max letters 1)) := by
        by_cases hpos : 0 < letters
        · refine ⟨letters, if_pos hpos, ?_⟩
          rw [Nat.max_eq_left hpos, ← hletters]
          exact (Narrow.takeWhile low_isNameLetter _).dropBytes? hname
        · refine ⟨c.utf8Size, ?_, ?_⟩
          · rw [if_neg hpos, characterSize?_encode hname]
          · rw [Nat.max_eq_right (by omega)]
            exact dropBytes?_char hname
      rw [hsize, Option.map_some]
      have hstar := getElem?_encode_eq_some_iff hstop (d := '*') (by decide)
      by_cases hhead : ((c :: cs).drop (max letters 1)).head? = some '*'
      · have hrecognize : control? ('\\' :: c :: cs) = some (1 + max letters 1 + 1) := by
          simp only [control?, hletters, if_pos hhead]
        have hend := (Narrow.one (by decide) hhead).dropBytes? hstop
        rw [List.drop_drop, ← List.drop_succ_cons (a := '\\')] at hend
        rw [if_pos (hstar.mpr hhead)]
        refine (map_byteLength_eq_some hplace hrecognize ?_).symm
        rwa [Nat.add_comm 1]
      · have hrecognize : control? ('\\' :: c :: cs) = some (1 + max letters 1 + 0) := by
          simp only [control?, hletters, if_neg hhead]
        rw [if_neg (mt hstar.mp hhead)]
        refine (map_byteLength_eq_some hplace hrecognize ?_).symm
        rwa [Nat.add_zero, Nat.add_comm 1, List.drop_succ_cons]

/-! ## Comments and blanks -/

/-- Nothing on a line ends a comment. -/
theorem commentEnd_line {bytes line after : List UInt8} {offset : Nat}
    (hbytes : bytes.drop offset = line ++ after) (hline : ∀ b ∈ line, onByte isLineEnd b = false) :
    commentEnd bytes offset = commentEnd bytes (offset + line.length) := by
  induction line generalizing offset with
  | nil => rfl
  | cons b line ih =>
    rw [List.forall_mem_cons] at hline
    have hbyte : bytes[offset]? = some b := by
      rw [← List.head?_drop, hbytes]
      rfl
    -- no byte of the line is that of a line end
    have hne {c : Char} (hc : c.toNat < 128) (hend : isLineEnd c = true) :
        bytes[offset]? ≠ some c.toUInt8 := by
      rw [hbyte]
      intro h
      rw [Option.some.inj h, onByte_toUInt8 hc, hend] at hline
      exact nomatch hline.1
    have hnone : lineBreakSize? bytes offset = none := by
      rw [lineBreakSize?, if_neg (hne (by decide) (by decide)),
        if_neg (hne (by decide) (by decide))]
    have hrest : bytes.drop (offset + 1) = line ++ after := by
      rw [← List.drop_drop, hbytes]
      rfl
    rw [commentEnd, if_pos (List.getElem?_eq_some_iff.mp hbyte).1, hnone]
    dsimp only
    rw [ih hrest hline.2, List.length_cons]
    congr 1
    omega

/-- A line break at a place leads to another place, with the same after its blanks. -/
theorem exists_lineBreakSize? {text cs : List Char} {c : Char} {offset : Nat}
    (hplace : dropBytes? text offset = some (c :: cs)) (hc : isLineEnd c = true) :
    ∃ size rest, lineBreakSize? (encode text) offset = some size ∧
      dropBytes? text (offset + size) = some rest ∧
      rest.dropWhile isBlank = (c :: cs).dropWhile isBlank := by
  -- the bytes of line ends are asked for, and they begin characters
  have hbyte {d : Char} (hd : d.toNat < 128) : (encode text)[offset]? = some d.toUInt8 ↔ c = d := by
    rw [getElem?_encode_eq_some_iff hplace hd, List.head?_cons, Option.some.injEq]
  simp only [isLineEnd, Bool.or_eq_true, beq_iff_eq] at hc
  rcases hc with rfl | rfl
  · refine ⟨1, cs, ?_, dropBytes?_succ hplace (by decide), rfl⟩
    rw [lineBreakSize?, if_pos ((hbyte (by decide)).mpr rfl)]
  · have hnext := dropBytes?_succ hplace (by decide)
    have hfeed := getElem?_encode_eq_some_iff hnext (d := '\n') (by decide)
    have hnot : (encode text)[offset]? ≠ some '\n'.toUInt8 := mt (hbyte (by decide)).mp (by decide)
    by_cases hhead : cs.head? = some '\n'
    · obtain ⟨rest, rfl⟩ := List.head?_eq_some_iff.mp hhead
      refine ⟨2, rest, ?_, dropBytes?_succ hnext (by decide), rfl⟩
      rw [lineBreakSize?, if_neg hnot, if_pos ((hbyte (by decide)).mpr rfl),
        if_pos (hfeed.mpr hhead)]
    · refine ⟨1, cs, ?_, hnext, rfl⟩
      rw [lineBreakSize?, if_neg hnot, if_pos ((hbyte (by decide)).mpr rfl),
        if_neg (mt hfeed.mp hhead)]

/-- A comment ends behind the blanks that follow its line. -/
theorem exists_commentEnd {text cs : List Char} {offset : Nat}
    (hplace : dropBytes? text offset = some cs) :
    ∃ stop, commentEnd (encode text) offset = .ok stop ∧
      dropBytes? text stop =
        some ((cs.dropWhile fun c => !isLineEnd c).dropWhile isBlank) := by
  have hsplit := List.takeWhile_append_dropWhile (p := fun c => !isLineEnd c) (l := cs)
  -- a character of the line has no byte that is taken for a line end
  have hline : ∀ b ∈ encode (cs.takeWhile fun c => !isLineEnd c), onByte isLineEnd b = false := by
    intro b hb
    obtain ⟨c, hc, hb⟩ := List.mem_flatMap.mp hb
    rw [low_isLineEnd.plain.onByte_of_mem hb]
    simpa using List.all_eq_true.mp List.all_takeWhile c hc
  have hbytes : (encode text).drop offset = encode (cs.takeWhile fun c => !isLineEnd c) ++
      encode (cs.dropWhile fun c => !isLineEnd c) := by
    rw [← encode_append, hsplit, drop_encode hplace]
  have hafter := dropBytes?_of_dropBytes? hplace hsplit.symm
  -- the reader passes the line, the line break, and the blanks after it
  rw [commentEnd_line hbytes hline, length_encode]
  generalize offset + byteLength _ = offset at hafter
  cases hcs : cs.dropWhile (fun c => !isLineEnd c) with
  | nil =>
    rw [hcs] at hafter
    have hend := drop_encode hafter
    rw [encode_nil, List.drop_eq_nil_iff] at hend
    refine ⟨offset, ?_, hafter⟩
    rw [commentEnd, if_neg (Nat.not_lt.mpr hend)]
    rfl
  | cons c ds =>
    rw [hcs] at hafter
    have hc : isLineEnd c = true := by
      have hhead := List.head?_dropWhile_not (fun c => !isLineEnd c) cs
      rw [hcs] at hhead
      simpa using hhead
    obtain ⟨size, rest, hsize, hnext, hrest⟩ := exists_lineBreakSize? hafter hc
    have hlt : offset < (encode text).length := by
      rw [← Nat.not_le, ← List.drop_eq_nil_iff, drop_encode hafter]
      simp
    have hstop := (Narrow.takeWhile low_isBlank rest).dropBytes? hnext
    rw [drop_length_takeWhile, hrest] at hstop
    refine ⟨offset + size + (rest.takeWhile isBlank).length, ?_, hstop⟩
    rw [commentEnd, if_pos hlt, hsize]
    simp only [bytesFrom_encode hnext, ok_bind, low_isBlank.length_takeWhile_encode]
    rfl

/-- The reader of comments finds what the recognizer finds. -/
theorem commentInBytes?_eq :
    commentInBytes? (encode source.toList) start =
      .ok (measureAt? comment? source start) := by
  rw [measureAt?_eq_bind]
  refine eq_bind_of_opener (c := '%') (by decide) ?_ (fun h => if_neg h) ?_
  · intro cs hhead
    rw [comment?_of_head?_ne hhead, Option.map_none]
  · intro hopen cs hplace
    obtain ⟨stop, hend, hstop⟩ := exists_commentEnd (dropBytes?_succ hplace (by decide))
    rw [commentInBytes?, if_pos hopen, hend]
    -- the stop is a boundary, and what is left there is what the recognizer leaves
    refine congrArg Except.ok (map_byteLength_eq_some hplace rfl ?_).symm
    rw [Nat.add_assoc, Nat.add_comm 1, List.drop_succ_cons, ← List.drop_drop,
      drop_length_takeWhile, drop_length_takeWhile, hstop]

/-- The reader of blanks finds what the recognizer finds. -/
theorem blanksInBytes?_eq :
    blanksInBytes? (encode source.toList) start =
      .ok (measureAt? blanks? source start) := by
  cases hplace : dropBytes? source.toList start with
  | none =>
    have hnone : measureAt? blanks? source start = none := by
      rw [measureAt?, hplace]
      rfl
    simp only [blanksInBytes?, low_isBlank.takeWhile_drop_encode hplace, hnone]
    split <;> rfl
  | some cs =>
    have hle : start ≤ (encode source.toList).length := by
      obtain ⟨front, hfront, rfl⟩ := exists_append_of_dropBytes?_eq_some hplace
      rw [← hfront, length_encode, byteLength_append]
      omega
    have hnarrow := Narrow.takeWhile low_isBlank cs
    have hrun := hnarrow.dropBytes? hplace
    simp only [blanksInBytes?, if_pos hle, drop_encode hplace,
      low_isBlank.length_takeWhile_encode, measureAt?_eq_map hplace, blanks?]
    -- without a blank there is no run, and no comment is looked for
    by_cases hzero : (cs.takeWhile isBlank).length = 0
    · rw [if_pos hzero, if_pos hzero]
      rfl
    · rw [if_neg hzero, if_neg hzero, commentInBytes?_eq]
      refine congrArg Except.ok (congrArg some ?_)
      rw [measureAt?_eq_map hrun]
      dsimp only
      rw [List.take_add, byteLength_append, hnarrow.byteLength_take, commentLength]
      cases comment? (cs.drop (cs.takeWhile isBlank).length) <;> rfl

/-- The reader of groups finds what the recognizer finds. -/
theorem groupInBytes?_eq :
    groupInBytes? (encode source.toList) start =
      .ok (measureAt? group? source start) := by
  rw [measureAt?_eq_bind]
  refine eq_bind_of_opener (c := '{') (by decide) ?_ (fun h => if_neg h) ?_
  · intro cs hhead
    rw [group?_of_head?_ne hhead, Option.map_none]
  · intro hopen cs hplace
    simp only [groupInBytes?, if_pos hopen, bytesFrom_encode (dropBytes?_succ hplace (by decide)),
      ok_bind, findIdx?_encode (low_beq (d := '}') (by decide)).plain]
    refine congrArg Except.ok ?_
    rw [group?, Option.map_map, Option.map_map]
    -- the closing brace is counted in characters there and in bytes here
    refine Option.map_congr fun n hn => ?_
    obtain ⟨name, rest, rfl, rfl, -⟩ := findIdx?_beq_eq_some_iff.mp hn
    show byteLength ((name ++ '}' :: rest).take name.length) + 2 =
      byteLength ('{' :: (name ++ '}' :: rest).take (name.length + 1))
    rw [List.take_left, List.take_length_add_append, byteLength_cons, byteLength_append]
    show byteLength name + 2 = 1 + (byteLength name + 1)
    omega

end Eq

/-! ## Accents -/

namespace Accent

/-- The marks of accents are ASCII characters. -/
theorem low_isMark : Low isMark := by
  have hmarks : ∀ mark ∈ marks, mark.1.toNat < 128 := by decide
  intro c hc
  obtain ⟨mark, hmark, heq⟩ := List.any_eq_true.mp hc
  rw [← beq_iff_eq.mp heq]
  exact hmarks mark hmark

/-- The base of an accent is narrow. -/
theorem narrow_base? {cs : List Char} {base : Char} {n : Nat} (h : base? cs = some (base, n)) :
    Narrow cs n := by
  unfold base? at h
  split at h
  · obtain ⟨-, rfl⟩ := Prod.mk.inj (Option.some.inj h)
    exact .cons (by decide) (.cons (by decide) (.zero _))
  · obtain ⟨-, rfl⟩ := Prod.mk.inj (Option.some.inj h)
    exact .cons (by decide) (.cons (by decide) (.zero _))
  · split at h
    · next hletter =>
      obtain ⟨-, rfl⟩ := Prod.mk.inj (Option.some.inj h)
      exact .cons (low_isAlpha _ hletter) (.zero _)
    · cases h
  · cases h

/-- After a backslash only the dotless letters are bases. -/
theorem base?_backslash (cs : List Char) :
    base? ('\\' :: cs) =
      if cs.head? = some 'i' then some ('\u0131', 2)
      else if cs.head? = some 'j' then some ('\u0237', 2) else none := by
  cases cs with
  | nil => rfl
  | cons c cs =>
    simp only [List.head?_cons, Option.some.injEq]
    split
    · next hc => rw [hc]; rfl
    · next hi =>
      split
      · next hc => rw [hc]; rfl
      · next hj => simp [base?, hi, hj]

end Accent

section Accents

variable {text cs : List Char} {offset : Nat} (hplace : dropBytes? text offset = some cs)

include hplace

/-- The reader of bases finds what the recognizer finds. -/
theorem baseInBytes?_eq : baseInBytes? (encode text) offset = Accent.base? cs := by
  cases cs with
  | nil => rw [baseInBytes?, getElem?_encode hplace]; rfl
  | cons c cs =>
    obtain ⟨b, hbyte, hlow, hclass⟩ := exists_getElem?_encode hplace
    -- the byte tells whether the character is a backslash
    have hbackslash : b = '\\'.toUInt8 ↔ c = '\\' := by
      have hiff := getElem?_encode_eq_some_iff hplace (d := '\\') (by decide)
      rwa [hbyte, Option.some.injEq, List.head?_cons, Option.some.injEq] at hiff
    rw [baseInBytes?, hbyte, Option.bind_some, hclass _ low_isAlpha.plain]
    by_cases hc : c = '\\'
    · have hnext := dropBytes?_succ (hc ▸ hplace) (by decide)
      rw [if_neg (by rw [hc]; decide), if_pos (hbackslash.mpr hc), hc, Accent.base?_backslash]
      simp only [getElem?_encode_eq_some_iff hnext (d := 'i') (by decide),
        getElem?_encode_eq_some_iff hnext (d := 'j') (by decide)]
    · rw [Accent.base?_of_ne hc, if_neg (mt hbackslash.mp hc)]
      split
      · next hletter => rw [hlow (low_isAlpha c hletter), ofUInt8_toUInt8 (low_isAlpha c hletter)]
      · rfl

/-- The reader of bases in braces finds what the recognizer finds. -/
theorem bracedBaseInBytes?_eq : bracedBaseInBytes? (encode text) offset = bracedBase? cs := by
  have hbrace := getElem?_encode_eq_some_iff hplace (d := '{') (by decide)
  rw [bracedBaseInBytes?]
  by_cases hopen : cs.head? = some '{'
  · obtain ⟨inner, rfl⟩ := List.head?_eq_some_iff.mp hopen
    have hinner := dropBytes?_succ hplace (by decide)
    rw [if_pos (hbrace.mpr hopen), baseInBytes?_eq hinner, bracedBase?]
    cases hbase : Accent.base? inner with
    | none => rfl
    | some found =>
      obtain ⟨base, n⟩ := found
      -- the base is narrow, so that the closing brace is asked for at a boundary
      have hlast := (Accent.narrow_base? hbase).dropBytes? hinner
      simp only [Option.bind_some, getElem?_encode_eq_some_iff hlast (d := '}') (by decide)]
      have hlength : offset + 1 + n + 1 - offset = n + 2 := by omega
      rw [hlength]
  · rw [if_neg (mt hbrace.mp hopen), bracedBase?_of_head?_ne hopen]

end Accents

/-- A base in braces is narrow. -/
theorem narrow_bracedBase? {cs : List Char} {base : Char} {n : Nat}
    (h : bracedBase? cs = some (base, n)) : Narrow cs n := by
  unfold bracedBase? at h
  split at h
  · split at h
    · next hbase =>
      split at h
      · next hclosing =>
        obtain ⟨-, rfl⟩ := Prod.mk.inj (Option.some.inj h)
        exact .cons (by decide) ((Accent.narrow_base? hbase).add (.one (by decide) hclosing))
      · cases h
    · cases h
  · cases h

/-- An accent is narrow. -/
theorem narrow_accent? {cs : List Char} {accent : Accent} (h : accent? cs = some accent) :
    Narrow cs accent.length := by
  unfold accent? at h
  split at h
  · next mark argument =>
    dsimp only at h
    split at h
    · next hmark =>
      have hlow := Accent.low_isMark mark hmark
      split at h
      · next base n hbare =>
        -- the spaces before the base
        obtain rfl := Option.some.inj h
        split at hbare
        · cases hbare
        · have hspaces := Narrow.takeWhile (p := (· == ' ')) (low_beq (by decide)) argument
          have hall := (hspaces.add (Accent.narrow_base? hbare)).cons hlow |>.cons
            (c := '\\') (by decide)
          rw [Nat.add_assoc, Nat.add_comm 2]
          exact hall
      · obtain ⟨⟨base, n⟩, hbraced, rfl⟩ := Option.map_eq_some_iff.mp h
        rw [Nat.add_comm 2]
        exact .cons (by decide) (.cons hlow (narrow_bracedBase? hbraced))
    · cases h
  · cases h

/-- An accent in a group is narrow. -/
theorem narrow_accentGroup? {cs : List Char} {accent : Accent}
    (h : accentGroup? cs = some accent) : Narrow cs accent.length := by
  unfold accentGroup? at h
  split at h
  · split at h
    · next haccent =>
      split at h
      · next hclosing =>
        obtain rfl := Option.some.inj h
        exact .cons (by decide) ((narrow_accent? haccent).add (.one (by decide) hclosing))
      · cases h
    · cases h
  · cases h

/-- The reader of accents finds what the recognizer finds. -/
theorem accentInBytes?_eq (text : List Char) (start : Nat) :
    accentInBytes? (encode text) start = .ok ((dropBytes? text start).bind accent?) := by
  refine eq_bind_of_opener (c := '\\') (by decide) (fun _ => accent?_of_head?_ne)
    (fun h => if_neg h) ?_
  intro hopen rest hplace
  have hnext := dropBytes?_succ hplace (by decide)
  rw [accentInBytes?, if_pos hopen]
  cases rest with
  | nil => rw [getElem?_encode hnext]; rfl
  | cons mark argument =>
    obtain ⟨b, hbyte, hlow, hclass⟩ := exists_getElem?_encode hnext
    rw [hbyte]
    dsimp only
    rw [hclass _ Accent.low_isMark.plain, hclass _ low_isAlpha.plain]
    by_cases hmark : Accent.isMark mark = true
    · have hargument := dropBytes?_succ hnext (Accent.low_isMark mark hmark)
      have hspace : Low (· == ' ') := low_beq (by decide)
      have hbase := (Narrow.takeWhile hspace argument).dropBytes? hargument
      rw [if_pos hmark, hlow (Accent.low_isMark mark hmark),
        ofUInt8_toUInt8 (Accent.low_isMark mark hmark)]
      simp only [bytesFrom_encode hargument, ok_bind, hspace.length_takeWhile_encode,
        low_isAlpha.plain.any_getElem? hargument, baseInBytes?_eq hbase,
        bracedBaseInBytes?_eq hargument, accent?, if_pos hmark]
      simp only [Nat.add_assoc, Nat.add_sub_cancel_left]
      -- a letter right behind a mark that is a letter makes it the name of another command
      by_cases hglued : (mark.isAlpha && (argument.takeWhile (· == ' ')).length == 0 &&
          argument.head?.any Char.isAlpha) = true
      · simp only [if_pos hglued]
        rfl
      · simp only [if_neg hglued]
        cases Accent.base? (argument.drop (argument.takeWhile (· == ' ')).length) <;> rfl
    · rw [if_neg hmark, accent?, if_neg hmark]
      rfl

/-- The reader of accents in groups finds what the recognizer finds. -/
theorem accentGroupInBytes?_eq (text : List Char) (start : Nat) :
    accentGroupInBytes? (encode text) start = .ok ((dropBytes? text start).bind accentGroup?) := by
  refine eq_bind_of_opener (c := '{') (by decide) (fun _ => accentGroup?_of_head?_ne)
    (fun h => if_neg h) ?_
  intro hopen inner hplace
  have hinner := dropBytes?_succ hplace (by decide)
  rw [accentGroupInBytes?, if_pos hopen, accentInBytes?_eq, hinner, Option.bind_some, ok_bind,
    accentGroup?]
  cases haccent : accent? inner with
  | none => rfl
  | some accent =>
    -- so is the accent
    have hlast := (narrow_accent? haccent).dropBytes? hinner
    simp only [Option.bind_some, getElem?_encode_eq_some_iff hlast (d := '}') (by decide)]
    rfl

/-- An accent has a byte for each of its characters. -/
theorem measureAt?_of_narrow {recognize : List Char → Option Accent}
    (hnarrow : ∀ {cs accent}, recognize cs = some accent → Narrow cs accent.length)
    (source : String) (start : Nat) :
    measureAt? (fun cs => (recognize cs).map Accent.length) source start =
      ((dropBytes? source.toList start).bind recognize).map Accent.length := by
  rw [measureAt?_eq_bind, Option.map_bind]
  refine Option.bind_congr fun cs _ => ?_
  rw [Option.map_map]
  exact Option.map_congr fun accent haccent => (hnarrow haccent).byteLength_take

end ProseLens.Token
