import ProseLens.Extract.Run
import ProseLens.Proofs.Text.Encoding
import ProseLens.Proofs.Text.Occurrence

/-!
# What a stall shows of the source

The report on a stall shows the source around the reading position.  `Stall.context` takes whole
characters on either side, until there are enough bytes.  The offsets between which that lies are
found byte by byte: by going back from `contextBytes` bytes before the position to the nearest place
between two characters (`goBack`), and by going on from as many bytes behind it (`goOn`).

Both ways lead outwards.  So neither side is shorter than it may be, and a side is longer than
`contextBytes` bytes where the offset at that distance is inside a character.

## Key results

- `goBack_eq_some_iff`, `goOn_eq_some_iff`: where the two ways end
- `goBack_before`, `goOn_after`: the ends of what is shown
-/

namespace ProseLens

namespace Text

/-! ## Covers -/

/-- A cover is a beginning of the text. -/
theorem cover_prefix (cs : List Char) (bytes : Nat) : cover cs bytes <+: cs := by
  fun_induction cover cs bytes with
  | case1 cs => exact List.nil_prefix
  | case2 => exact List.nil_prefix
  | case3 c cs bytes ih => exact List.cons_prefix_cons.mpr ⟨rfl, ih⟩

/-- A cover has the bytes that are asked for, unless the text ends before. -/
theorem le_byteLength_cover (cs : List Char) (bytes : Nat) :
    min bytes (byteLength cs) ≤ byteLength (cover cs bytes) := by
  fun_induction cover cs bytes with
  | case1 cs => simp
  | case2 => simp
  | case3 c cs bytes ih =>
    simp only [byteLength_cons]
    omega

/-- A cover is the shortest beginning with so many bytes. -/
theorem byteLength_cover_le {cs front : List Char} {bytes : Nat} (hfront : front <+: cs)
    (hbytes : bytes ≤ byteLength front) : byteLength (cover cs bytes) ≤ byteLength front := by
  fun_induction cover cs bytes generalizing front with
  | case1 cs => exact Nat.zero_le _
  | case2 => exact Nat.zero_le _
  | case3 c cs bytes ih =>
    cases front with
    | nil => exact absurd hbytes (by simp)
    | cons d front =>
      obtain ⟨rfl, hbegins⟩ := List.cons_prefix_cons.mp hfront
      simp only [byteLength_cons] at hbytes ⊢
      -- the bytes still to be covered are within what is left of `front`
      have hmore : bytes + 1 - d.utf8Size ≤ byteLength front := by omega
      have hle := ih hbegins hmore
      omega

/-- A cover ends with the character that makes it long enough. -/
theorem byteLength_cover_lt (cs : List Char) (bytes : Nat) :
    byteLength (cover cs bytes) < bytes + 4 := by
  fun_induction cover cs bytes with
  | case1 cs => simp
  | case2 => simp
  | case3 c cs bytes ih =>
    have hpos := c.utf8Size_pos
    have hle := c.utf8Size_le_four
    rw [byteLength_cons]
    by_cases hlast : bytes + 1 ≤ c.utf8Size
    · -- nothing is left to cover
      have hnil : cover cs (bytes + 1 - c.utf8Size) = [] := by
        rw [Nat.sub_eq_zero_of_le hlast]
        cases cs <;> rfl
      rw [hnil, byteLength_nil]
      omega
    · omega

/-! ## Places between two characters -/

/-- The last place between two characters that is not behind byte `offset`, found by going back
    byte by byte.  `none` if there is no such place, not even at the start. -/
def goBack (source : String) : (offset : Nat) → Option Nat
  | 0 => if (String.Pos.Raw.mk 0).IsValid source then some 0 else none
  | offset + 1 =>
    if (String.Pos.Raw.mk (offset + 1)).IsValid source then some (offset + 1)
    else goBack source offset

/-- The first place between two characters that is not before byte `offset`, found by going on
    byte by byte.  `none` if there is no such place, not even at the end. -/
def goOn (source : String) (offset : Nat) : Option Nat :=
  if (String.Pos.Raw.mk offset).IsValid source then some offset
  else if offset < source.utf8ByteSize then goOn source (offset + 1)
  else none
termination_by source.utf8ByteSize - offset

/-- Going back from an offset ends at the last boundary that is not behind it. -/
theorem goBack_eq_some_iff {source : String} {offset place : Nat} :
    goBack source offset = some place ↔ (String.Pos.Raw.mk place).IsValid source ∧
      place ≤ offset ∧ ∀ i, (String.Pos.Raw.mk i).IsValid source → i ≤ offset → i ≤ place := by
  fun_induction goBack source offset with
  | case1 hvalid =>
    rw [Option.some.injEq]
    constructor
    · rintro rfl
      exact ⟨hvalid, Nat.le_refl 0, fun i _ hi => hi⟩
    · rintro ⟨-, hplace, -⟩
      omega
  | case2 hvalid => exact absurd String.Pos.Raw.isValid_zero hvalid
  | case3 offset hvalid =>
    rw [Option.some.injEq]
    constructor
    · rintro rfl
      exact ⟨hvalid, Nat.le_refl _, fun i _ hi => hi⟩
    · rintro ⟨-, hplace, hlast⟩
      exact Nat.le_antisymm (hlast _ hvalid (Nat.le_refl _)) hplace
  -- a place that is no boundary is passed, and no boundary is lost by that
  | case4 offset hvalid ih =>
    have hne {i : Nat} (hi : (String.Pos.Raw.mk i).IsValid source) : i ≠ offset + 1 := by
      rintro rfl
      exact hvalid hi
    rw [ih]
    refine and_congr_right fun hplace => and_congr ?_ (forall₂_congr fun i hi => ?_)
    · have := hne hplace
      omega
    · have := hne hi
      constructor <;> intro hlast hle <;> exact hlast (by omega)

/-- Going on from an offset ends at the first boundary that is not before it. -/
theorem goOn_eq_some_iff {source : String} {offset place : Nat} :
    goOn source offset = some place ↔ (String.Pos.Raw.mk place).IsValid source ∧
      offset ≤ place ∧ ∀ i, (String.Pos.Raw.mk i).IsValid source → offset ≤ i → place ≤ i := by
  fun_induction goOn source offset with
  | case1 offset hvalid =>
    rw [Option.some.injEq]
    constructor
    · rintro rfl
      exact ⟨hvalid, Nat.le_refl _, fun i _ hi => hi⟩
    · rintro ⟨-, hplace, hfirst⟩
      exact Nat.le_antisymm hplace (hfirst _ hvalid (Nat.le_refl _))
  | case2 offset hvalid hlt ih =>
    have hne {i : Nat} (hi : (String.Pos.Raw.mk i).IsValid source) : i ≠ offset := by
      rintro rfl
      exact hvalid hi
    rw [ih]
    refine and_congr_right fun hplace => and_congr ?_ (forall₂_congr fun i hi => ?_)
    · have := hne hplace
      omega
    · have := hne hi
      constructor <;> intro hfirst hle <;> exact hfirst (by omega)
  | case3 offset hvalid hge =>
    -- all places are before the end of the source, and the end is one of them
    simp only [reduceCtorEq, false_iff]
    rintro ⟨hplace, hle, -⟩
    have hend := hplace.le_utf8ByteSize
    dsimp only at hend
    obtain rfl : place = offset := by omega
    exact hvalid hplace

/-- A place that is not behind the end of `before` divides it. -/
theorem exists_append_of_le {source : String} {before after : List Char} {i : Nat}
    (hsource : source.toList = before ++ after) (hi : (String.Pos.Raw.mk i).IsValid source)
    (hle : i ≤ byteLength before) :
    ∃ front back, before = front ++ back ∧ byteLength front = i := by
  obtain ⟨rest, hrest⟩ := exists_dropBytes?_of_isValid hi
  have hafter : dropBytes? source.toList (byteLength before) = some after := by
    rw [hsource, dropBytes?_append]
  obtain ⟨back, rfl, -⟩ := exists_append_of_dropBytes? hrest hafter hle
  obtain ⟨front, hfront, hlength⟩ := exists_append_of_dropBytes?_eq_some hrest
  rw [hsource, ← List.append_assoc] at hfront
  exact ⟨front, back, (List.append_cancel_right hfront).symm, hlength⟩

/-- A place that is not before the end of `before` divides what follows it. -/
theorem exists_append_of_ge {source : String} {before after : List Char} {i : Nat}
    (hsource : source.toList = before ++ after) (hi : (String.Pos.Raw.mk i).IsValid source)
    (hle : byteLength before ≤ i) :
    ∃ front back, after = front ++ back ∧ byteLength before + byteLength front = i := by
  obtain ⟨rest, hrest⟩ := exists_dropBytes?_of_isValid hi
  have hafter : dropBytes? source.toList (byteLength before) = some after := by
    rw [hsource, dropBytes?_append]
  obtain ⟨front, hfront, hlength⟩ := exists_append_of_dropBytes? hafter hrest hle
  exact ⟨front, rest, hfront, hlength⟩

/-- The length of a beginning of the source is a boundary. -/
theorem isValid_byteLength {source : String} {before after : List Char}
    (hsource : source.toList = before ++ after) :
    (String.Pos.Raw.mk (byteLength before)).IsValid source := by
  apply isValid_of_dropBytes?
  rw [hsource]
  exact dropBytes?_append before after

/-- A text has as many bytes backwards as forwards. -/
theorem byteLength_reverse (cs : List Char) : byteLength cs.reverse = byteLength cs := by
  induction cs with
  | nil => rfl
  | cons c cs ih =>
    rw [List.reverse_cons, byteLength_append, ih, byteLength_cons, byteLength_cons, byteLength_nil]
    omega

/-- The cover of the last characters of a text is an end of it. -/
theorem exists_append_cover (cs : List Char) (bytes : Nat) :
    ∃ front, cs = front ++ (cover cs.reverse bytes).reverse ∧
      byteLength cs = byteLength front + byteLength (cover cs.reverse bytes) := by
  obtain ⟨front, hcover⟩ := cover_prefix cs.reverse bytes
  have hcs : cs = front.reverse ++ (cover cs.reverse bytes).reverse := by
    rw [← List.reverse_append, hcover, List.reverse_reverse]
  refine ⟨front.reverse, hcs, ?_⟩
  rw [← byteLength_reverse (cover _ _), ← byteLength_append, ← hcs]

/-- Going back from some bytes before the end of `before` leads to where the cover of its last
    characters begins. -/
theorem goBack_before {source : String} {before after : List Char} (bytes : Nat)
    (hsource : source.toList = before ++ after) :
    goBack source (byteLength before - bytes) =
      some (byteLength before - byteLength (cover before.reverse bytes)) := by
  obtain ⟨front, hbefore, hlength⟩ := exists_append_cover before bytes
  have hplace : byteLength before - byteLength (cover before.reverse bytes) =
      byteLength front := by omega
  have henough := le_byteLength_cover before.reverse bytes
  rw [byteLength_reverse] at henough
  rw [goBack_eq_some_iff, hplace]
  refine ⟨?_, by omega, ?_⟩
  · rw [hbefore, List.append_assoc] at hsource
    exact isValid_byteLength hsource
  · intro i hi hle
    obtain ⟨first, second, hsplit, rfl⟩ := exists_append_of_le hsource hi (by omega)
    have hsecond : second.reverse <+: before.reverse := by
      rw [hsplit, List.reverse_append]
      exact List.prefix_append _ _
    have hsum : byteLength before = byteLength first + byteLength second := by
      rw [hsplit, byteLength_append]
    by_cases hstart : byteLength first = 0
    · omega
    · -- what comes after the place has enough bytes, so that the cover is not longer
      have hbytes : bytes ≤ byteLength second.reverse := by
        rw [byteLength_reverse]
        omega
      have hshortest := byteLength_cover_le hsecond hbytes
      rw [byteLength_reverse second] at hshortest
      omega

/-- Going on from some bytes behind the end of `before` leads to where the cover of the characters
    after it ends. -/
theorem goOn_after {source : String} {before after : List Char} (bytes : Nat)
    (hsource : source.toList = before ++ after) :
    goOn source (min (byteLength before + bytes) source.utf8ByteSize) =
      some (byteLength before + byteLength (cover after bytes)) := by
  obtain ⟨back, hcover⟩ := cover_prefix after bytes
  have henough := le_byteLength_cover after bytes
  have hsize : source.utf8ByteSize = byteLength before + byteLength after := by
    rw [← byteLength_toList, hsource, byteLength_append]
  rw [goOn_eq_some_iff, ← byteLength_append]
  refine ⟨?_, ?_, ?_⟩
  · rw [← hcover, ← List.append_assoc] at hsource
    exact isValid_byteLength hsource
  · rw [byteLength_append]
    omega
  · intro i hi hle
    obtain ⟨first, second, hsplit, rfl⟩ := exists_append_of_ge hsource hi (by omega)
    have hfirst : first <+: after := ⟨second, hsplit.symm⟩
    rw [byteLength_append]
    by_cases hall : bytes ≤ byteLength first
    · have hshortest := byteLength_cover_le hfirst hall
      omega
    · -- the source ends there
      have hlength : byteLength after = byteLength (cover after bytes) + byteLength back := by
        rw [← byteLength_append, hcover]
      omega

end Text

namespace Extract.Stall

/-- What is shown lies between the two ends. -/
theorem slice?_context {source : String} {before after : List Char}
    (hsource : source.toList = before ++ after) :
    Text.slice? source
      (Text.byteLength before - Text.byteLength (Text.cover before.reverse contextBytes))
      (Text.byteLength before + Text.byteLength (Text.cover after contextBytes)) =
        some (context before after) := by
  obtain ⟨front, hbefore, hlength⟩ := Text.exists_append_cover before contextBytes
  obtain ⟨back, hafter⟩ := Text.cover_prefix after contextBytes
  have hstart : Text.byteLength before -
      Text.byteLength (Text.cover before.reverse contextBytes) = Text.byteLength front := by omega
  -- what is cut off at both ends stands in front of the slice and behind it
  have hwhole : source.toList = front ++ ((context before after).toList ++ back) := by
    rw [context, String.toList_ofList, List.append_assoc, hafter, ← List.append_assoc, ← hbefore,
      hsource]
  rw [Text.slice?_eq_some_iff, hstart, hwhole]
  refine ⟨back, Text.dropBytes?_append _ _, ?_⟩
  rw [context, String.toList_ofList, Text.byteLength_append, Text.byteLength_reverse]
  omega

/-- What is shown around a place between two characters lies between two such places, the first of
    them found by going back from `contextBytes` bytes before it and the second by going on from
    `contextBytes` bytes behind it, or from the end of the source.  Neither side is shorter than any
    that has at most `contextBytes` bytes.  It has at most so many itself if and only if the offset
    at that distance is not inside a character, and if it is, less than four more. -/
theorem context_reaches_outwards (source : String) (before after : List Char)
    (hsource : source.toList = before ++ after) :
    ∃ start stop,
      Text.goBack source (Text.byteLength before - contextBytes) = some start ∧
      Text.goOn source (min (Text.byteLength before + contextBytes) source.utf8ByteSize) =
        some stop ∧
      Text.slice? source start stop = some (context before after) ∧
      (String.Pos.Raw.mk start).IsValid source ∧ (String.Pos.Raw.mk stop).IsValid source ∧
      start ≤ Text.byteLength before ∧ Text.byteLength before ≤ stop ∧
      (∀ i, (String.Pos.Raw.mk i).IsValid source → i ≤ Text.byteLength before →
        Text.byteLength before - i ≤ contextBytes → start ≤ i) ∧
      (∀ i, (String.Pos.Raw.mk i).IsValid source → Text.byteLength before ≤ i →
        i - Text.byteLength before ≤ contextBytes → i ≤ stop) ∧
      (Text.byteLength before - start ≤ contextBytes ↔
        (String.Pos.Raw.mk (Text.byteLength before - contextBytes)).IsValid source) ∧
      (stop - Text.byteLength before ≤ contextBytes ↔
        (String.Pos.Raw.mk
          (min (Text.byteLength before + contextBytes) source.utf8ByteSize)).IsValid source) ∧
      Text.byteLength before - start < contextBytes + 4 ∧
      stop - Text.byteLength before < contextBytes + 4 := by
  have hback := Text.goBack_before contextBytes hsource
  have hon := Text.goOn_after contextBytes hsource
  obtain ⟨hstart, hstartLe, hlast⟩ := Text.goBack_eq_some_iff.mp hback
  obtain ⟨hstop, hstopLe, hfirst⟩ := Text.goOn_eq_some_iff.mp hon
  have hend := hstop.le_utf8ByteSize
  have hbackLength := Text.byteLength_cover_lt before.reverse contextBytes
  have honLength := Text.byteLength_cover_lt after contextBytes
  refine ⟨_, _, hback, hon, slice?_context hsource, hstart, hstop, Nat.sub_le _ _,
    Nat.le_add_right _ _, ?_, ?_, ?_, ?_, by omega, by omega⟩
  · intro i _ hle hwithin
    omega
  · intro i hi hle hwithin
    have hsize := hi.le_utf8ByteSize
    dsimp only at hsize
    omega
  -- a side is within the bound exactly if the loop on that side does not move at all
  · constructor
    · intro hwithin
      rwa [Nat.le_antisymm hstartLe (Nat.sub_le_iff_le_add.mpr (by omega))] at hstart
    · intro hvalid
      have hle := hlast _ hvalid (Nat.le_refl _)
      omega
  · constructor
    · intro hwithin
      dsimp only at hend
      rwa [Nat.le_antisymm (Nat.le_min.mpr ⟨by omega, hend⟩) hstopLe] at hstop
    · intro hvalid
      have hle := hfirst _ hvalid (Nat.le_refl _)
      omega

/-- Sixteen characters of two bytes and a letter before the place, and eleven of three bytes behind
    the backslash that stands there: on either side the offset at the distance of 32 bytes is inside
    a character. -/
theorem context_reaches_outwards_umlauts :
    ∃ source before after, source = "ääääääääääääääääa\\€€€€€€€€€€€" ∧
      source.toList = before ++ after ∧ Text.byteLength before = 33 ∧
      source.utf8ByteSize = 67 ∧ Text.slice? source 0 67 = some (context before after) := by
  have hsource : "ääääääääääääääääa\\€€€€€€€€€€€".toList =
      "ääääääääääääääääa".toList ++ "\\€€€€€€€€€€€".toList := by decide
  obtain ⟨start, stop, hback, hon, hslice, hstart, hstop, -, -, -, -, hstartIff, hstopIff, -, -⟩ :=
    context_reaches_outwards _ _ _ hsource
  have hposition : Text.byteLength "ääääääääääääääääa".toList = 33 := by decide
  have hsize : "ääääääääääääääääa\\€€€€€€€€€€€".utf8ByteSize = 67 := by decide
  rw [hposition] at hback hon
  rw [hsize] at hon
  obtain ⟨-, hstartLe, -⟩ := Text.goBack_eq_some_iff.mp hback
  obtain ⟨-, hstopLe, -⟩ := Text.goOn_eq_some_iff.mp hon
  -- none of the offsets 1, 65 and 66 is a place between two characters
  have hstartZero : start = 0 := by
    rcases Nat.lt_or_eq_of_le hstartLe with hlt | rfl
    · exact Nat.lt_one_iff.mp hlt
    · exact absurd hstart (by decide)
  have hstopEnd : stop = 67 := by
    have hend := hstop.le_utf8ByteSize
    have hne65 : stop ≠ 65 := by
      rintro rfl
      exact absurd hstop (by decide)
    have hne66 : stop ≠ 66 := by
      rintro rfl
      exact absurd hstop (by decide)
    rw [hsize] at hend
    change 65 ≤ stop at hstopLe
    change stop ≤ 67 at hend
    omega
  rw [hstartZero, hstopEnd] at hslice
  exact ⟨_, _, _, rfl, hsource, hposition, hsize, hslice⟩

/-- An extraction that stalls may show more than 32 bytes before its position. -/
theorem context_longer_than_asked :
    ∃ stall, (Extractor.builtin.extract "ääääääääääääääääa\\" 0).result = .error stall ∧
      stall.position = 33 ∧
      ¬ ∃ start stop, Text.slice? "ääääääääääääääääa\\" start stop = some stall.surroundings ∧
        start ≤ stall.position ∧ stall.position ≤ stop ∧ stall.position - start ≤ 32 ∧
        stop - stall.position ≤ 32 := by
  have hreport : (match (Extractor.builtin.extract "ääääääääääääääääa\\" 0).result with
      | .error stall => some (stall.position, stall.surroundings)
      | .ok _ => none) = some (33, "ääääääääääääääääa\\") := by decide +kernel
  cases hresult : (Extractor.builtin.extract "ääääääääääääääääa\\" 0).result with
  | ok t =>
    rw [hresult] at hreport
    exact nomatch hreport
  | error stall =>
    rw [hresult] at hreport
    obtain ⟨hposition, hshown⟩ := Prod.mk.inj (Option.some.inj hreport)
    refine ⟨stall, rfl, hposition, ?_⟩
    rintro ⟨start, stop, hslice, -, -, hwithin, -⟩
    rw [hposition] at hwithin
    rw [hshown] at hslice
    -- all of the source is shown, so that it is shown from its start
    obtain ⟨rest, hdrop, -⟩ := Text.slice?_eq_some_iff.mp hslice
    obtain ⟨front, hfront, rfl⟩ := Text.exists_append_of_dropBytes?_eq_some hdrop
    have hsize := congrArg Text.byteLength hfront
    rw [Text.byteLength_append, Text.byteLength_append] at hsize
    have hwhole : Text.byteLength "ääääääääääääääääa\\".toList = 34 := by decide
    rw [hwhole] at hsize
    omega

end Extract.Stall

end ProseLens
