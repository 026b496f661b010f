import Mathlib.Data.Prod.Lex
import Mathlib.Order.Interval.Set.Defs
import ProseLens.LineIndex

/-!
# Offsets and positions of a document

The lines of a document follow each other from its start to its end (`Lined`): the content of a line
ends before the next line begins, and the content of the last line where the document ends.  Every
offset up to the end belongs to exactly one line, the last one that begins at or before it
(`Holds`), and what the line index says of an offset or a position is read off that line.

A line begins where the document does and where a line break ends.  Line breaks are told from a
segmentation of the whole text into `pieces`, in which a carriage return and the line feed after it
stay together, so that an offset between the two lies on the line that they end.

## Key results

- `lined_ofString`, `map_start_ofString`: the lines of a text
- `Holds.position_eq`, `offset_of_admits`: positions and offsets by the line that holds them
- `positions_locate_offsets`: which offsets and positions correspond to each other
-/

namespace ProseLens

namespace Text

/-- The text in pieces, from the left: a carriage return with a line feed directly after it is one
    piece, and every other character is a piece of its own. -/
def pieces : List Char → List (List Char)
  | '\r' :: '\n' :: cs => ['\r', '\n'] :: pieces cs
  | c :: cs => [c] :: pieces cs
  | [] => []

/-- Whether a piece ends a line. -/
def isBreak (piece : List Char) : Bool :=
  piece == ['\n'] || piece == ['\r', '\n'] || piece == ['\r']

/-- Where the line breaks among the pieces end, if the first piece begins at byte `offset`. -/
def breakEnds (offset : Nat) : List (List Char) → List Nat
  | [] => []
  | piece :: rest =>
    let stop := offset + byteLength piece
    if isBreak piece then stop :: breakEnds stop rest else breakEnds stop rest

/-- Where the lines of a text begin: at its start, and where a line break ends. -/
def lineStarts (text : String) : List Nat := 0 :: breakEnds 0 (pieces text.toList)

end Text

/-- The position is on a line of the text and before the next line.  On the last line it may also be
    the end of the text. -/
def Position.IsOn (p : Position) (text : String) : Prop :=
  ∃ start, (Text.lineStarts text)[p.line]? = some start ∧
    match (Text.lineStarts text)[p.line + 1]? with
    | some next => p.column < next - start
    | none => p.column ≤ text.utf8ByteSize - start

namespace LineIndex

open Text

/-- Lines that follow each other from byte `start` to the end of the document at byte `length`. -/
inductive Lined (length : Nat) : (start : Nat) → List Line → Prop where
  /-- The last line ends with the document. -/
  | last {start : Nat} (h : start ≤ length) : Lined length start [⟨start, length⟩]
  /-- The content of any other line ends before the next line begins. -/
  | line {start stop next : Nat} {lines : List Line} (h : start ≤ stop) (hbreak : stop < next)
      (hrest : Lined length next lines) : Lined length start (⟨start, stop⟩ :: lines)

/-! ## The lines of a text -/

/-- Collecting the lines of a text adds lines that go from the line that was begun to the end of
    the text, and that begin where line breaks end. -/
theorem exists_collect (start offset : Nat) (done : List Line) (cs : List Char)
    (hstart : start ≤ offset) :
    ∃ lines, collect start offset done cs = done.reverse ++ lines ∧
      Lined (offset + byteLength cs) start lines ∧
      lines.map Line.start = start :: breakEnds offset (pieces cs) := by
  fun_induction collect start offset done cs with
  | case1 start offset done cs ih =>
    -- the line break is both characters, so that the next line begins behind the line feed
    obtain ⟨lines, hcollect, hlined, hstarts⟩ := ih (Nat.le_refl _)
    refine ⟨⟨start, offset⟩ :: lines, by rw [hcollect]; simp, ?_, ?_⟩
    · have hsize : byteLength ('\r' :: '\n' :: cs) = 2 + byteLength cs := by
        simp only [byteLength_cons]
        rw [← Nat.add_assoc]
        rfl
      rw [hsize, ← Nat.add_assoc]
      exact .line hstart (Nat.lt_add_of_pos_right (by decide)) hlined
    · rw [List.map_cons, hstarts]
      rfl
  | case2 start offset done c cs hpair hbreak ih =>
    obtain ⟨lines, hcollect, hlined, hstarts⟩ := ih (Nat.le_refl _)
    have hsize : c.utf8Size = 1 := by
      rcases hbreak with rfl | rfl <;> rfl
    have hpiece : isBreak [c] = true := by
      rcases hbreak with rfl | rfl <;> rfl
    refine ⟨⟨start, offset⟩ :: lines, by rw [hcollect]; simp, ?_, ?_⟩
    · rw [byteLength_cons, hsize, ← Nat.add_assoc]
      exact .line hstart (Nat.lt_succ_self offset) hlined
    · rw [List.map_cons, hstarts, pieces, breakEnds]
      · simp [hpiece, hsize]
      · exact hpair
  | case3 start offset done c cs hpair hother ih =>
    obtain ⟨lines, hcollect, hlined, hstarts⟩ := ih (Nat.le_add_right_of_le hstart)
    rw [not_or] at hother
    have hpiece : isBreak [c] = false := by
      simp [isBreak, hother]
    refine ⟨lines, hcollect, ?_, ?_⟩
    · rw [byteLength_cons, ← Nat.add_assoc]
      exact hlined
    · rw [hstarts, pieces, breakEnds]
      · simp [hpiece]
      · exact hpair
  | case4 start offset done =>
    exact ⟨[⟨start, offset⟩], by simp, .last hstart, rfl⟩

/-- The lines of a text follow each other from its start to its end. -/
theorem lined_ofString (text : String) :
    Lined (ofString text).length 0 (ofString text).lines := by
  obtain ⟨lines, hcollect, hlined, -⟩ := exists_collect 0 0 [] text.toList (Nat.le_refl 0)
  rw [Nat.zero_add, byteLength_toList] at hlined
  rw [List.reverse_nil, List.nil_append] at hcollect
  show Lined text.utf8ByteSize 0 (collect 0 0 [] text.toList)
  rw [hcollect]
  exact hlined

/-- The lines begin where the text has line starts. -/
theorem map_start_ofString (text : String) :
    (ofString text).lines.map Line.start = lineStarts text := by
  obtain ⟨lines, hcollect, -, hstarts⟩ := exists_collect 0 0 [] text.toList (Nat.le_refl 0)
  show (collect 0 0 [] text.toList).map Line.start = _
  rw [hcollect]
  exact hstarts

/-! ## The line of an offset -/

/-- Line `k` is the last one that begins at or before byte `offset`. -/
structure Holds (lines : List Line) (k : Nat) (line : Line) (offset : Nat) : Prop where
  getElem? : lines[k]? = some line
  start_le : line.start ≤ offset
  lt_next : ∀ next ∈ lines[k + 1]?, offset < next.start

section Lines

variable {length start k offset : Nat} {lines : List Line} {line next : Line}

namespace Lined

/-- No line begins before the first one. -/
theorem start_le (h : Lined length start lines) (hline : line ∈ lines) : start ≤ line.start := by
  induction h with
  | last => simp_all
  | line hle hbreak _ ih =>
    rcases List.mem_cons.mp hline with rfl | hline
    · exact Nat.le_refl _
    · have := ih hline
      omega

/-- Lines begin within the text. -/
theorem le_length (h : Lined length start lines) : start ≤ length := by
  induction h with
  | last hle => exact hle
  | line hle hbreak _ ih => omega

/-- The content of a line goes from its start up to the end of the document at most. -/
theorem stop_mem (h : Lined length start lines) (hline : lines[k]? = some line) :
    line.start ≤ line.stop ∧ line.stop ≤ length := by
  induction h generalizing k with
  | last hle =>
    obtain rfl := List.mem_singleton.mp (List.mem_of_getElem? hline)
    exact ⟨hle, Nat.le_refl _⟩
  | line hle hbreak hrest ih =>
    cases k with
    | zero =>
      obtain rfl : _ = line := by simpa using hline
      -- the line break lies between the stop of this line and the rest
      have := hrest.le_length
      exact ⟨hle, by dsimp only; omega⟩
    | succ k => exact ih (by simpa using hline)

/-- A line stops before the next one starts, with the line break between the two. -/
theorem stop_lt (h : Lined length start lines) (hline : lines[k]? = some line)
    (hnext : lines[k + 1]? = some next) : line.stop < next.start := by
  induction h generalizing k with
  | last => simp at hnext
  | line hle hbreak hrest ih =>
    cases k with
    | zero =>
      obtain rfl : _ = line := by simpa using hline
      -- the next line is the first of the rest, or a later one of it
      have hmem : next ∈ _ := List.mem_of_getElem? (by simpa using hnext)
      have := hrest.start_le hmem
      dsimp only
      omega
    | succ k => exact ih (by simpa using hline) (by simpa using hnext)

/-- The last line stops at the end of the text. -/
theorem stop_last (h : Lined length start lines) (hline : lines[k]? = some line)
    (hlast : lines[k + 1]? = none) : line.stop = length := by
  induction h generalizing k with
  | last =>
    obtain rfl := List.mem_singleton.mp (List.mem_of_getElem? hline)
    rfl
  | line hle hbreak hrest ih =>
    cases k with
    | zero => cases hrest <;> simp at hlast
    | succ k => exact ih (by simpa using hline) (by simpa using hlast)

/-- Every offset behind the start of the first line is on some line. -/
theorem exists_holds (h : Lined length start lines) (hstart : start ≤ offset) :
    ∃ k line, Holds lines k line offset := by
  induction h with
  | last => exact ⟨0, _, rfl, hstart, by simp⟩
  | @line _ stop following _ hle hbreak hrest ih =>
    -- before the start of the rest the first line holds the offset, and the rest does from there on
    rcases Nat.lt_or_ge offset following with hlt | hge
    · refine ⟨0, _, rfl, hstart, ?_⟩
      intro next hnext
      have := hrest.start_le (List.mem_of_getElem? (by simpa using hnext))
      omega
    · obtain ⟨k, line, hline, hle, hlt⟩ := ih hge
      exact ⟨k + 1, line, by simpa using hline, hle, by simpa using hlt⟩

/-- The lines that begin at or before an offset are those up to the line that holds it. -/
theorem takeWhile_eq (h : Lined length start lines) (hholds : Holds lines k line offset) :
    lines.takeWhile (·.start ≤ offset) = lines.take (k + 1) := by
  induction h generalizing k with
  | last =>
    obtain ⟨hline, hle, -⟩ := hholds
    cases k <;> simp_all
  | @line _ stop following rest hle hbreak hrest ih =>
    obtain ⟨hline, hstart, hlt⟩ := hholds
    cases k with
    | zero =>
      obtain rfl : _ = line := by simpa using hline
      -- the next line begins behind the offset
      have hnone : rest.takeWhile (·.start ≤ offset) = [] := by
        cases rest with
        | nil => rfl
        | cons next rest =>
          have := hlt next (by simp)
          exact List.takeWhile_cons_of_neg (by simpa using this)
      rw [List.takeWhile_cons_of_pos (by simpa using hstart), hnone, Nat.zero_add]
      rfl
    | succ k =>
      have hline' : rest[k]? = some line := by simpa using hline
      have := hrest.start_le (List.mem_of_getElem? hline')
      rw [List.takeWhile_cons_of_pos (by simp only [decide_eq_true_eq]; omega),
        ih ⟨hline', hstart, by simpa using hlt⟩]
      rfl

/-- Lines begin one after the other. -/
theorem pairwise_start (h : Lined length start lines) :
    lines.Pairwise fun line next => line.start ≤ next.start := by
  induction h with
  | last => exact List.pairwise_singleton _ _
  | line hle hbreak hrest ih =>
    refine List.pairwise_cons.mpr ⟨fun next hnext => ?_, ih⟩
    have := hrest.start_le hnext
    dsimp only
    omega

end Lined

/-- Where lines are in order, those that begin at or before an offset come first. -/
theorem countP_eq_length_takeWhile
    (h : lines.Pairwise fun line next => line.start ≤ next.start) (offset : Nat) :
    lines.countP (·.start ≤ offset) = (lines.takeWhile (·.start ≤ offset)).length := by
  induction lines with
  | nil => rfl
  | cons line lines ih =>
    rw [List.pairwise_cons] at h
    by_cases hle : line.start ≤ offset
    · rw [List.countP_cons_of_pos (by simpa using hle),
        List.takeWhile_cons_of_pos (by simpa using hle), ih h.2, List.length_cons]
    -- once a line begins behind the offset, all others do
    · have hnone : lines.countP (·.start ≤ offset) = 0 := by
        rw [List.countP_eq_zero]
        intro next hnext
        have := h.1 next hnext
        simp only [decide_eq_true_eq]
        omega
      rw [List.countP_cons_of_neg (by simpa using hle),
        List.takeWhile_cons_of_neg (by simpa using hle), hnone, List.length_nil]

/-! ## Positions and offsets by lines -/

namespace Holds

variable {index : LineIndex} (hlined : Lined index.length 0 index.lines)
include hlined

/-- The position of an offset is on the line that holds it. -/
theorem position_eq (h : Holds index.lines k line offset) (hle : offset ≤ index.length) :
    index.position offset = ⟨k, offset - line.start⟩ := by
  -- the lines that begin at the offset or before it are those up to `k`
  have hlast : (index.lines.take (k + 1)).getLast? = some line := by
    rw [List.getLast?_take]
    simp [h.getElem?]
  have hlength : (index.lines.take (k + 1)).length = k + 1 := by
    have := (List.getElem?_eq_some_iff.mp h.getElem?).1
    rw [List.length_take]
    omega
  rw [LineIndex.position]
  simp only [Nat.min_eq_left hle, hlined.takeWhile_eq h, hlast, hlength]
  rfl

/-- The line of an offset is the number of lines that begin at or before it, the first apart. -/
theorem countP_eq (h : Holds index.lines k line offset) :
    index.lines.countP (·.start ≤ offset) = k + 1 := by
  have := (List.getElem?_eq_some_iff.mp h.getElem?).1
  rw [countP_eq_length_takeWhile hlined.pairwise_start, hlined.takeWhile_eq h, List.length_take]
  omega

end Holds

/-- The column is that of an offset on the line: it lies before the next line, or before or at the
    end of the document. -/
def Admits (index : LineIndex) (k : Nat) (line : Line) (column : Nat) : Prop :=
  match index.lines[k + 1]? with
  | some next => column < next.start - line.start
  | none => column ≤ index.length - line.start

/-- A line admits the columns of the offsets that it holds. -/
theorem Holds.admits {index : LineIndex} (h : Holds index.lines k line offset)
    (hle : offset ≤ index.length) : index.Admits k line (offset - line.start) := by
  have hstart := h.start_le
  rw [Admits]
  -- the bound on the column is what the line after it leaves
  cases hnext : index.lines[k + 1]? with
  | some next =>
    have hlt := h.lt_next next hnext
    dsimp only
    omega
  | none =>
    dsimp only
    omega

section Offsets

variable {index : LineIndex} {column : Nat} (hlined : Lined index.length 0 index.lines)
  (hline : index.lines[k]? = some line)
include hlined hline

/-- The content of a line ends on that line. -/
theorem holds_stop : Holds index.lines k line line.stop where
  getElem? := hline
  start_le := (hlined.stop_mem hline).1
  lt_next _ hnext := hlined.stop_lt hline hnext

/-- A column that the line admits is counted from its start. -/
theorem offset_of_admits (hcolumn : index.Admits k line column) :
    index.offset ⟨k, column⟩ = line.start + column ∧ line.start + column ≤ index.length ∧
      Holds index.lines k line (line.start + column) := by
  obtain ⟨hstart, hstop⟩ := hlined.stop_mem hline
  rw [Admits] at hcolumn
  rw [LineIndex.offset]
  simp only [hline]
  -- the column is bounded by the next line if there is one, and by the end of the text otherwise
  cases hnext : index.lines[k + 1]? with
  | some next =>
    simp only [hnext] at hcolumn
    have hend := hlined.stop_mem hnext
    rw [Option.map_some, Option.getD_some, if_neg (by omega)]
    refine ⟨rfl, by omega, hline, Nat.le_add_right _ _, ?_⟩
    intro next' hnext'
    obtain rfl : next = next' := by simpa [hnext] using hnext'
    omega
  | none =>
    simp only [hnext] at hcolumn
    have hlast := hlined.stop_last hline hnext
    rw [Option.map_none, Option.getD_none]
    refine ⟨?_, by omega, hline, Nat.le_add_right _ _, by simp [hnext]⟩
    split <;> omega

omit hlined in
/-- Any other column goes to the end of the line's content. -/
theorem offset_of_not_admits (hcolumn : ¬ index.Admits k line column) :
    index.offset ⟨k, column⟩ = line.stop := by
  rw [Admits] at hcolumn
  rw [LineIndex.offset]
  simp only [hline]
  -- a column past its bound is cut off at the stop of the line
  cases hnext : index.lines[k + 1]? with
  | some next =>
    simp only [hnext] at hcolumn
    rw [Option.map_some, Option.getD_some, if_pos (by omega)]
  | none =>
    simp only [hnext] at hcolumn
    rw [Option.map_none, Option.getD_none, if_pos (by omega)]

/-- The positions that are found again from their offsets are those that the line admits. -/
theorem position_offset_eq_iff :
    index.position (index.offset ⟨k, column⟩) = ⟨k, column⟩ ↔ index.Admits k line column := by
  constructor
  · intro h
    by_contra hcolumn
    have hstop := holds_stop hlined hline
    rw [offset_of_not_admits hline hcolumn,
      hstop.position_eq hlined (hlined.stop_mem hline).2] at h
    -- the position of the stop of the line could only be the one with that column
    obtain rfl : line.stop - line.start = column := (Position.mk.inj h).2
    exact hcolumn (hstop.admits (hlined.stop_mem hline).2)
  · intro hcolumn
    obtain ⟨hoffset, hle, hholds⟩ := offset_of_admits hlined hline hcolumn
    rw [hoffset, hholds.position_eq hlined hle, Nat.add_sub_cancel_left]

end Offsets

/-- An offset is found again from its position. -/
theorem Holds.offset_position_eq {index : LineIndex} (hlined : Lined index.length 0 index.lines)
    (h : Holds index.lines k line offset) (hle : offset ≤ index.length) :
    index.offset (index.position offset) = offset := by
  obtain ⟨hoffset, -⟩ := offset_of_admits hlined h.getElem? (h.admits hle)
  rw [h.position_eq hlined hle, hoffset, Nat.add_sub_cancel' h.start_le]

end Lines

/-! ## Offsets and positions of a text -/

section Texts

variable (text : String)

/-- Every offset is held by a line. -/
theorem exists_holds_ofString (offset : Nat) :
    ∃ k line, Holds (ofString text).lines k line offset :=
  (lined_ofString text).exists_holds (Nat.zero_le offset)

/-- An offset past the end has the position of the end. -/
theorem position_min (offset : Nat) :
    (ofString text).position (min offset (ofString text).length) =
      (ofString text).position offset := by
  simp [LineIndex.position]

/-- A position leads back to its offset. -/
theorem offset_position (offset : Nat) :
    (ofString text).offset ((ofString text).position offset) =
      min offset (ofString text).length := by
  obtain ⟨k, line, hholds⟩ := exists_holds_ofString text (min offset (ofString text).length)
  rw [← position_min]
  exact hholds.offset_position_eq (lined_ofString text) (Nat.min_le_right _ _)

/-- The line of an offset is the number of line breaks that end at or before it. -/
theorem line_position (offset : Nat) :
    ((ofString text).position offset).line =
      (breakEnds 0 (pieces text.toList)).countP (· ≤ min offset (ofString text).length) := by
  obtain ⟨k, line, hholds⟩ := exists_holds_ofString text (min offset (ofString text).length)
  have hlined := lined_ofString text
  have hcount := hholds.countP_eq hlined
  -- there is one line start more than there are line breaks
  have hstarts : (lineStarts text).countP (· ≤ min offset (ofString text).length) = k + 1 := by
    rw [← map_start_ofString, List.countP_map]
    exact hcount
  rw [lineStarts, List.countP_cons_of_pos (by simp)] at hstarts
  rw [← position_min, hholds.position_eq hlined (Nat.min_le_right _ _)]
  exact (Nat.succ.inj hstarts).symm

/-- No position leads past the end. -/
theorem offset_le (p : Position) : (ofString text).offset p ≤ (ofString text).length := by
  have hlined := lined_ofString text
  cases hline : (ofString text).lines[p.line]? with
  | none =>
    rw [LineIndex.offset]
    simp [hline]
  | some line =>
    -- the offset is in the line, or at its stop
    by_cases hcolumn : (ofString text).Admits p.line line p.column
    · obtain ⟨hoffset, hle, -⟩ := offset_of_admits hlined hline hcolumn
      rw [hoffset]
      exact hle
    · rw [offset_of_not_admits hline hcolumn]
      exact (hlined.stop_mem hline).2

/-- A position that is clamped does not lead past the end either. -/
theorem clampedOffset_le (line column : Int) :
    (ofString text).clampedOffset line column ≤ (ofString text).length := by
  cases line with
  -- a negative line is the start of the text, a negative column the start of the line
  | negSucc => exact Nat.zero_le _
  | ofNat line =>
    cases column with
    | ofNat column => exact offset_le text ⟨line, column⟩
    | negSucc =>
      rw [clampedOffset]
      cases hline : (ofString text).lines[line]? with
      | none => exact Nat.le_refl _
      | some found =>
        obtain ⟨hstart, hstop⟩ := (lined_ofString text).stop_mem hline
        exact hstart.trans hstop

/-- A greater offset up to the end has a later position. -/
theorem position_lt {first second : Nat} (hlt : first < second)
    (hle : second ≤ (ofString text).length) :
    toLex (((ofString text).position first).line, ((ofString text).position first).column) <
      toLex (((ofString text).position second).line,
        ((ofString text).position second).column) := by
  have hlined := lined_ofString text
  have hlines :
      ((ofString text).position first).line ≤ ((ofString text).position second).line := by
    rw [line_position, line_position]
    refine List.countP_mono_left fun stop _ hstop => ?_
    simp only [decide_eq_true_eq] at hstop ⊢
    omega
  obtain ⟨k, line, hfirst⟩ := exists_holds_ofString text first
  obtain ⟨k', line', hsecond⟩ := exists_holds_ofString text second
  rw [hfirst.position_eq hlined (by omega), hsecond.position_eq hlined hle] at hlines ⊢
  rw [Prod.Lex.toLex_lt_toLex']
  refine ⟨hlines, ?_⟩
  -- on the same line the columns decide
  rintro rfl
  have hsame := hfirst.getElem?
  rw [hsecond.getElem?] at hsame
  obtain rfl := Option.some.inj hsame
  have hstart := hfirst.start_le
  dsimp only
  omega

/-- There is one line for each line start. -/
theorem lineCount_ofString : (ofString text).lineCount = (lineStarts text).length := by
  rw [← map_start_ofString, List.length_map]
  rfl

/-- A position is on the text if its line is there and admits its column. -/
theorem isOn_iff {p : Position} : p.IsOn text ↔ ∃ line,
    (ofString text).lines[p.line]? = some line ∧
      (ofString text).Admits p.line line p.column := by
  -- the last line ends with the text, the others where the next one starts
  have hlength : (ofString text).length = text.utf8ByteSize := rfl
  rw [Position.IsOn, ← map_start_ofString, ← hlength]
  simp only [List.getElem?_map, Option.map_eq_some_iff, Admits]
  constructor
  · rintro ⟨_, ⟨line, hline, rfl⟩, hcolumn⟩
    refine ⟨line, hline, ?_⟩
    cases hnext : (ofString text).lines[p.line + 1]? <;> simpa [hnext] using hcolumn
  · rintro ⟨line, hline, hcolumn⟩
    refine ⟨_, ⟨line, hline, rfl⟩, ?_⟩
    cases hnext : (ofString text).lines[p.line + 1]? <;> simpa [hnext] using hcolumn

/-- A position that is on the text is found again from its offset, and no other one is. -/
theorem position_offset_eq_iff_isOn (p : Position) :
    (ofString text).position ((ofString text).offset p) = p ↔ p.IsOn text := by
  have hlined := lined_ofString text
  rw [isOn_iff]
  cases hline : (ofString text).lines[p.line]? with
  | some line =>
    rw [position_offset_eq_iff hlined hline]
    simp
  | none =>
    -- the end of the document is on one of its lines
    have hoffset : (ofString text).offset p = (ofString text).length := by
      rw [LineIndex.offset]
      simp [hline]
    obtain ⟨k, line, hholds⟩ := exists_holds_ofString text (ofString text).length
    have hk := hholds.getElem?
    rw [hoffset, hholds.position_eq hlined (Nat.le_refl _)]
    constructor
    · intro h
      rw [← congrArg Position.line h] at hline
      rw [hline] at hk
      cases hk
    · rintro ⟨line, h, -⟩
      cases h

end Texts

/-- Every offset is found again from its position, with those past the end going to the end, and a
    greater offset up to the end has a later position.  The line of an offset is the number of line
    breaks that end at or before it.  The positions that are found again from their offsets are
    exactly those on a line of the text.  No coordinates lead out of the text, and those that are
    not negative are not clamped. -/
theorem positions_locate_offsets (text : String) :
    (∀ o, (ofString text).offset ((ofString text).position o) = min o text.utf8ByteSize) ∧
    StrictMonoOn (fun o => toLex (((ofString text).position o).line,
      ((ofString text).position o).column)) (Set.Iic text.utf8ByteSize) ∧
    (∀ o, ((ofString text).position o).line =
      (breakEnds 0 (pieces text.toList)).countP (· ≤ min o text.utf8ByteSize)) ∧
    (ofString text).lineCount = (lineStarts text).length ∧
    (∀ p, (ofString text).position ((ofString text).offset p) = p ↔ p.IsOn text) ∧
    (∀ p, (ofString text).offset p ≤ text.utf8ByteSize) ∧
    (∀ line column : Int, (ofString text).clampedOffset line column ≤ text.utf8ByteSize) ∧
    ∀ line column : Nat, (ofString text).clampedOffset line column =
      (ofString text).offset ⟨line, column⟩ :=
  ⟨offset_position text, fun _ _ _ hsecond hlt => position_lt text hlt hsecond,
    line_position text, lineCount_ofString text, position_offset_eq_iff_isOn text,
    offset_le text, clampedOffset_le text, fun _ _ => rfl⟩

/-- Between a carriage return and its line feed. -/
example : (ofString "ab\r\ncd\ref\ngh").position 3 = ⟨0, 3⟩ := by decide

end LineIndex

end ProseLens
