import ProseLens.Proofs.Text.LineBreak
import ProseLens.Token.Accent
import ProseLens.Token.Control
import ProseLens.Token.Dimension

/-!
# Recognizers and the other kind of line break

A recognizer that stays on one line finds the same in a text and in the text with expanded line
breaks.  Blanks, comments and groups may run over line breaks: what they find in the expanded text
is the expansion of what they find.

A control sequence stays on one line unless it is a backslash before a line feed, which would take
the carriage return alone.

## Key results

- `control?_crlf`, `verbatim?_crlf`, `chunkOpener?_crlf`, `dimension?_crlf`, `accent?_crlf`: the
  recognizers that stay on one line
- `fits_comment?`, `fits_blanks?`, `group?_cases`: those that do not
- `hasBlankLine_crlf`: blank lines are found with either kind of line break
-/

namespace ProseLens.Token

open Text

/-! ## Blanks and comments -/

/-- A comment with the line break and the blanks after it. -/
theorem fits_comment? (cs : List Char) :
    Option.Rel (Fits cs) (comment? cs) (comment? (crlf cs)) := by
  by_cases hhead : cs.head? = some '%'
  · obtain ⟨line, rfl⟩ := List.head?_eq_some_iff.mp hhead
    have hend : (fun c => !isLineEnd c) '\r' = (fun c => !isLineEnd c) '\n' := rfl
    -- the line, and the blanks after it, from the end forwards
    have hblanks := Fits.takeWhile (p := isBlank) rfl (line.dropWhile fun c => !isLineEnd c)
    have hfits := (hblanks.takeWhile_add hend).append ['%']
    rw [← dropWhile_crlf hend, ← Nat.add_assoc, ← Nat.add_assoc] at hfits
    exact .some hfits
  · rw [comment?_of_head?_ne hhead, comment?_of_head?_ne (mt (head?_crlf_iff rfl).mp hhead)]
    exact .none

/-- A comment is as long in the expanded text as its expansion. -/
theorem fits_commentLength (cs : List Char) :
    Fits cs (commentLength cs) (commentLength (crlf cs)) := by
  have hcomment := fits_comment? cs
  unfold commentLength
  generalize comment? cs = found, comment? (crlf cs) = found' at hcomment
  cases hcomment with
  | none => exact .zero cs
  | some h => exact h

/-- A run of blanks with the comment after it. -/
theorem fits_blanks? (cs : List Char) :
    Option.Rel (Fits cs) (blanks? cs) (blanks? (crlf cs)) := by
  have hrun := Fits.takeWhile (p := isBlank) rfl cs
  have hfits := hrun.add (fits_commentLength _)
  rw [← hrun.drop_eq] at hfits
  -- the run is empty in both texts or in neither
  have hzero : ((crlf cs).takeWhile isBlank).length = 0 ↔ (cs.takeWhile isBlank).length = 0 := by
    rw [takeWhile_crlf rfl, List.length_eq_zero_iff, List.length_eq_zero_iff, crlf_eq_nil_iff]
  simp only [blanks?, hzero]
  split
  · exact .none
  · exact .some hfits

/-- A blank line is one with either kind of line break. -/
theorem hasBlankLine_crlf {cs : List Char} (hreturn : '\r' ∉ cs) :
    hasBlankLine (crlf cs) = hasBlankLine cs := by
  have hstart {c d : Char} (hd : d ≠ c) (front rest : List Char) :
      startsWith (c :: rest) (d :: front) = false := by
    simp [startsWith, stripFront?, hd]
  induction cs with
  | nil => rfl
  | cons c cs ih =>
    obtain ⟨hc, hcs⟩ := not_or.mp (mt List.mem_cons.mpr hreturn)
    by_cases hbreak : c = '\n'
    · subst hbreak
      -- the line feed alone begins no blank line, since a carriage return or no break follows it
      have hfeed : hasBlankLine ('\n' :: crlf cs) = hasBlankLine (crlf cs) := by
        have hnext : startsWith ('\n' :: crlf cs) ['\n', '\n'] = false := by
          cases cs with
          | nil => rfl
          | cons d cs =>
            by_cases hd : d = '\n'
            · subst hd
              rfl
            · simp [startsWith, stripFront?, crlf_cons hd, Ne.symm hd]
        rw [hasBlankLine, hnext, hstart (by decide), hstart (by decide)]
        simp
      have hnext : startsWith ('\r' :: '\n' :: crlf cs) ['\r', '\n', '\r', '\n'] =
          startsWith ('\n' :: cs) ['\n', '\n'] := by
        cases cs with
        | nil => rfl
        | cons d cs =>
          by_cases hd : d = '\n'
          · subst hd
            rfl
          · have hd' : '\r' ≠ d := by
              rintro rfl
              exact hcs List.mem_cons_self
            simp [startsWith, stripFront?, crlf_cons hd, Ne.symm hd, hd']
      rw [crlf_break, hasBlankLine, hfeed, ih hcs, hasBlankLine, hnext]
      simp [startsWith, stripFront?]
    · rw [crlf_cons hbreak, hasBlankLine, hasBlankLine, ih hcs, hstart (Ne.symm hbreak), hstart hc,
        hstart hc, hstart (Ne.symm hbreak), hstart hc, hstart hc]

/-! ## Control sequences -/

/-- The name of a control sequence is a run of letters or one character. -/
private theorem onLine_name {c : Char} (hc : c ≠ '\n') (cs : List Char) :
    OnLine (c :: cs) (max ((c :: cs).takeWhile isNameLetter).length 1) := by
  rcases Nat.le_total ((c :: cs).takeWhile isNameLetter).length 1 with hle | hle
  · rw [Nat.max_eq_right hle]
    exact (OnLine.zero cs).cons hc
  · rw [Nat.max_eq_left hle]
    exact OnLine.takeWhile rfl _

/-- What follows the backslash is no line feed. -/
private theorem ne_break {c : Char} {cs : List Char} (h : ¬ ['\\', '\n'] <+: '\\' :: c :: cs) :
    c ≠ '\n' := by
  rintro rfl
  exact h ⟨cs, rfl⟩

/-- A control sequence is on one line, unless it is a backslash before a line feed. -/
theorem onLine_control? {cs : List Char} (hescaped : ¬ ['\\', '\n'] <+: cs) {n : Nat}
    (h : control? cs = some n) : OnLine cs n := by
  unfold control? at h
  -- the star is the last character that can belong to it
  split at h
  · next c cs =>
    obtain rfl := Option.some.inj h
    rw [Nat.add_assoc, Nat.add_comm 1]
    refine .cons (by decide) ((onLine_name (ne_break hescaped) cs).add ?_)
    split
    · next hstar => exact .one (by decide) hstar
    · exact .zero _
  · cases h

/-- A control sequence that is no escaped line feed is the same in both texts. -/
theorem control?_crlf {cs : List Char} (hescaped : ¬ ['\\', '\n'] <+: cs) :
    control? (crlf cs) = control? cs := by
  by_cases hhead : cs.head? = some '\\'
  · obtain ⟨rest, rfl⟩ := List.head?_eq_some_iff.mp hhead
    cases rest with
    | nil => rfl
    | cons c rest =>
      have hc := ne_break hescaped
      -- letters are no line ends, so that the name ends at the same place
      have hletters := takeWhile_crlf_of_line (p := isNameLetter) rfl rfl (c :: rest)
      have hafter := (onLine_name hc rest).fits.drop_eq
      rw [crlf_cons hc] at hletters hafter
      rw [crlf_cons (by decide), crlf_cons hc]
      simp only [control?, hletters, hafter, head?_crlf_iff (c := '*') rfl]
  · rw [control?_of_head?_ne hhead, control?_of_head?_ne (mt (head?_crlf_iff rfl).mp hhead)]

/-- A group in braces is there in both texts or in neither. -/
theorem group?_cases (cs : List Char) :
    (group? cs = none ∧ group? (crlf cs) = none) ∨
      ∃ name rest, cs = '{' :: (name ++ '}' :: rest) ∧ '}' ∉ name := by
  -- without a closing brace there is no group, and expanding adds none
  have hopen {inner : List Char} (hbrace : '}' ∉ inner) : group? ('{' :: inner) = none := by
    rw [group?, Option.map_eq_none_iff, List.findIdx?_eq_none_iff]
    intro c hc
    rw [beq_eq_false_iff_ne]
    rintro rfl
    exact hbrace hc
  by_cases hhead : cs.head? = some '{'
  · obtain ⟨inner, rfl⟩ := List.head?_eq_some_iff.mp hhead
    by_cases hbrace : '}' ∈ inner
    · right
      obtain ⟨name, rest, rfl, hname⟩ := List.eq_append_cons_of_mem hbrace
      exact ⟨name, rest, rfl, hname⟩
    · left
      rw [crlf_cons (by decide)]
      exact ⟨hopen hbrace, hopen (mt (mem_crlf_iff rfl).mp hbrace)⟩
  · exact .inl ⟨group?_of_head?_ne hhead, group?_of_head?_ne (mt (head?_crlf_iff rfl).mp hhead)⟩

/-- A group is found in both texts or in neither, with lengths that fit. -/
theorem fits_group? (cs : List Char) : Option.Rel (Fits cs) (group? cs) (group? (crlf cs)) := by
  rcases group?_cases cs with ⟨hnone, hnone'⟩ | ⟨name, rest, rfl, hname⟩
  · rw [hnone, hnone']
    exact .none
  -- the name may have line breaks in it, so that the lengths differ
  · have hfits := Fits.of_append ('{' :: (name ++ ['}'])) rest
    have hname' : '}' ∉ crlf name := mt (mem_crlf_iff rfl).mp hname
    rw [crlf_cons (by decide), crlf_append, crlf_cons (by decide), group?_append hname,
      group?_append hname']
    rw [crlf_cons (by decide), crlf_append, crlf_cons (by decide)] at hfits
    simp only [List.cons_append, List.append_assoc, List.nil_append, List.length_cons,
      List.length_append] at hfits
    exact .some hfits

/-! ## Verbatim text and chunks -/

/-- A delimited text stands on one line, so that it is the same in both texts. -/
theorem delimited?_crlf (cs : List Char) : delimited? (crlf cs) = delimited? cs := by
  cases cs with
  | nil => rfl
  | cons c cs =>
    by_cases hc : c = '\n'
    · subst hc
      rfl
    · rw [crlf_cons hc, delimited?, delimited?, takeWhile_crlf_of_line rfl rfl]

/-- A delimited text stands on one line. -/
theorem onLine_delimited? {cs : List Char} {n : Nat} (h : delimited? cs = some n) :
    OnLine cs n := by
  cases cs with
  | nil => cases h
  | cons c cs =>
    rw [delimited?] at h
    split at h
    · cases h
    · next hc =>
      obtain ⟨k, hk, rfl⟩ := Option.map_eq_some_iff.mp h
      have hc' : c ≠ '\n' := by
        rintro rfl
        exact hc rfl
      -- the closing delimiter is looked for on the line only
      have hlt := (List.findIdx?_eq_some_iff_findIdx_eq.mp hk).1
      exact .cons hc' ((OnLine.takeWhile rfl cs).mono hlt)

/-- Verbatim text is delimited text after the command, or after the command with its star. -/
private theorem verbatim?_eq {cs body : List Char}
    (hbody : stripFront? "\\verb".toList cs = some body) :
    verbatim? cs = ((if body.head? = some '*' then (delimited? body.tail).map (· + 6) else none) <|>
      (delimited? body).map (· + 5)) := by
  rw [verbatim?, hbody]
  dsimp only
  congr 1
  -- the case of a star is written with a pattern there and with an equation here
  split
  · rfl
  · next hstar =>
    rw [if_neg]
    intro hhead
    obtain ⟨inner, rfl⟩ := List.head?_eq_some_iff.mp hhead
    exact hstar inner rfl

/-- Verbatim text is the same in both texts. -/
theorem verbatim?_crlf (cs : List Char) : verbatim? (crlf cs) = verbatim? cs := by
  have hstrip := stripFront?_crlf (show Unbroken "\\verb".toList by decide) cs
  cases hbody : stripFront? "\\verb".toList cs with
  | none =>
    rw [hbody] at hstrip
    simp only [verbatim?, hbody, hstrip, Option.map_none]
  | some body =>
    rw [hbody, Option.map_some] at hstrip
    rw [verbatim?_eq hbody, verbatim?_eq hstrip, delimited?_crlf]
    congr 1
    -- both texts have the star, or neither
    simp only [head?_crlf_iff (c := '*') rfl]
    split
    · next hstar =>
      obtain ⟨inner, rfl⟩ := List.head?_eq_some_iff.mp hstar
      rw [crlf_cons (by decide), List.tail_cons, List.tail_cons, delimited?_crlf]
    · rfl

/-- Verbatim text stands on one line. -/
theorem onLine_verbatim? {cs : List Char} {n : Nat} (h : verbatim? cs = some n) :
    OnLine cs n := by
  cases hbody : stripFront? "\\verb".toList cs with
  | none =>
    rw [verbatim?, hbody] at h
    cases h
  | some body =>
    rw [verbatim?_eq hbody, Option.orElse_eq_orElse, Option.orElse_eq_or,
      Option.or_eq_some_iff] at h
    have hverb : OnLine cs 5 := by
      rw [stripFront?_eq_some_iff.mp hbody]
      exact .of_append (by decide) body
    -- the command has five characters, and six with its star
    have hdrop : cs.drop 5 = body := by
      rw [stripFront?_eq_some_iff.mp hbody]
      rfl
    rcases h with hstarred | ⟨-, hplain⟩
    · split at hstarred
      · next hstar =>
        obtain ⟨inner, rfl⟩ := List.head?_eq_some_iff.mp hstar
        obtain ⟨k, hk, rfl⟩ := Option.map_eq_some_iff.mp hstarred
        have hinner : OnLine (cs.drop 5) (k + 1) := by
          rw [hdrop]
          exact (onLine_delimited? hk).cons (by decide)
        have hall := hverb.add hinner
        rwa [Nat.add_comm 5, Nat.add_assoc] at hall
      · cases hstarred
    · obtain ⟨k, hk, rfl⟩ := Option.map_eq_some_iff.mp hplain
      have hall := hverb.add (by rw [hdrop]; exact onLine_delimited? hk)
      rwa [Nat.add_comm] at hall

/-- The opening of a chunk is the same in both texts. -/
theorem chunkOpener?_crlf (cs : List Char) : chunkOpener? (crlf cs) = chunkOpener? cs := by
  rw [chunkOpener?, chunkOpener?, stripFront?_crlf (by decide)]
  cases stripFront? ['<', '<'] cs with
  | none => rfl
  | some label =>
    have hline := takeWhile_crlf_of_line (p := fun c => !isLineEnd c) rfl rfl label
    simp only [Option.map_some, hline]

/-- A part that is found lies within the text. -/
theorem add_length_le_of_indexOf? {part cs : List Char} {k : Nat} (h : indexOf? part cs = some k) :
    k + part.length ≤ cs.length := by
  obtain ⟨front, rest, rfl, rfl⟩ := exists_append_of_indexOf? h
  rw [List.length_append, List.length_append]
  omega

/-- The opening of a chunk stands on one line. -/
theorem onLine_chunkOpener? {cs : List Char} {n : Nat} (h : chunkOpener? cs = some n) :
    OnLine cs n := by
  rw [chunkOpener?] at h
  split at h
  · cases h
  · next label hlabel =>
    obtain ⟨k, hk, rfl⟩ := Option.map_eq_some_iff.mp h
    have hle := add_length_le_of_indexOf? hk
    -- the label is looked for on the line only
    have hline := (OnLine.takeWhile (p := fun c => !isLineEnd c) rfl label).mono hle
    rw [stripFront?_eq_some_iff.mp hlabel]
    exact (hline.cons (c := '<') (by decide)).cons (c := '<') (by decide)

/-! ## Accents -/

namespace Accent

/-- The base of an accent is the same in both texts. -/
theorem base?_crlf (cs : List Char) : base? (crlf cs) = base? cs := by
  match cs with
  | [] => rfl
  | c :: cs =>
    by_cases hc : c = '\n'
    · subst hc
      rfl
    · rw [crlf_cons hc]
      -- a letter is its own base, and behind a backslash one of two letters is
      by_cases hbackslash : c = '\\'
      · subst hbackslash
        cases cs with
        | nil => rfl
        | cons d cs =>
          by_cases hd : d = '\n'
          · subst hd
            rfl
          · rw [crlf_cons hd]
            by_cases hi : d = 'i'
            · subst hi
              rfl
            · by_cases hj : d = 'j'
              · subst hj
                rfl
              · simp [base?, hi, hj]
      · rw [base?_of_ne hbackslash, base?_of_ne hbackslash]

/-- The base of an accent stands on one line. -/
theorem onLine_base? {cs : List Char} {base : Char} {n : Nat} (h : base? cs = some (base, n)) :
    OnLine cs n := by
  unfold base? at h
  split at h
  · obtain ⟨-, rfl⟩ := Prod.mk.inj (Option.some.inj h)
    exact .cons (by decide) (.cons (by decide) (.zero _))
  · obtain ⟨-, rfl⟩ := Prod.mk.inj (Option.some.inj h)
    exact .cons (by decide) (.cons (by decide) (.zero _))
  · next c cs _ _ =>
    split at h
    -- a letter is no line feed
    · next hletter =>
      obtain ⟨-, rfl⟩ := Prod.mk.inj (Option.some.inj h)
      refine .cons ?_ (.zero _)
      rintro rfl
      exact absurd hletter (by decide)
    · cases h
  · cases h

end Accent

/-- A base in braces is the same in both texts. -/
theorem bracedBase?_crlf (cs : List Char) : bracedBase? (crlf cs) = bracedBase? cs := by
  refine eq_crlf_of_head? '{' none rfl (fun _ => bracedBase?_of_head?_ne) ?_ cs
  intro inner
  rw [bracedBase?, bracedBase?, Accent.base?_crlf]
  split
  · next base n hbase =>
    simp only [(Accent.onLine_base? hbase).fits.drop_eq, head?_crlf_iff (c := '}') rfl]
  · rfl

/-- A base in braces stands on one line. -/
theorem onLine_bracedBase? {cs : List Char} {base : Char} {n : Nat}
    (h : bracedBase? cs = some (base, n)) : OnLine cs n := by
  unfold bracedBase? at h
  split at h
  · next inner =>
    split at h
    · next base n hbase =>
      split at h
      · next hclosing =>
        obtain ⟨-, rfl⟩ := Prod.mk.inj (Option.some.inj h)
        exact .cons (by decide) ((Accent.onLine_base? hbase).add (.one (by decide) hclosing))
      · cases h
    · cases h
  · cases h

/-- What is no mark has no accent. -/
private theorem accent?_eq_none {mark : Char} (hmark : Accent.isMark mark = false)
    (argument : List Char) : accent? ('\\' :: mark :: argument) = none := by
  rw [accent?, hmark]
  rfl

/-- An accent is the same in both texts. -/
theorem accent?_crlf (cs : List Char) : accent? (crlf cs) = accent? cs := by
  refine eq_crlf_of_head? '\\' none rfl (fun _ => accent?_of_head?_ne) ?_ cs
  intro rest
  cases rest with
  | nil => rfl
  | cons mark argument =>
    by_cases hmark : mark = '\n'
    · subst hmark
      rw [crlf_break, accent?_eq_none (by decide), accent?_eq_none (by decide)]
    -- spaces are no line ends, and what follows them is the same up to a line end
    · have hspaces := takeWhile_crlf_of_line (p := (· == ' ')) rfl rfl argument
      have hafter := (OnLine.takeWhile (p := (· == ' ')) rfl argument).fits.drop_eq
      simp only [crlf_cons hmark, accent?, hspaces, hafter, Accent.base?_crlf, bracedBase?_crlf,
        any_head?_crlf (p := Char.isAlpha) rfl]

/-- An accent stands on one line. -/
theorem onLine_accent? {cs : List Char} {accent : Accent} (h : accent? cs = some accent) :
    OnLine cs accent.length := by
  unfold accent? at h
  split at h
  · next mark argument =>
    dsimp only at h
    split at h
    · next hmark =>
      have hbreak : mark ≠ '\n' := by
        rintro rfl
        exact absurd hmark (by decide)
      split at h
      · next base n hbare =>
        -- the spaces before the base
        obtain rfl := Option.some.inj h
        split at hbare
        · cases hbare
        · have hspaces := OnLine.takeWhile (p := (· == ' ')) rfl argument
          have hall := (hspaces.add (Accent.onLine_base? hbare)).cons hbreak |>.cons
            (c := '\\') (by decide)
          rw [Nat.add_assoc, Nat.add_comm 2]
          exact hall
      · obtain ⟨⟨base, n⟩, hbraced, rfl⟩ := Option.map_eq_some_iff.mp h
        rw [Nat.add_comm 2]
        exact .cons (by decide) (.cons hbreak (onLine_bracedBase? hbraced))
    · cases h
  · cases h

/-- An accent in a group is the same in both texts. -/
theorem accentGroup?_crlf (cs : List Char) : accentGroup? (crlf cs) = accentGroup? cs := by
  refine eq_crlf_of_head? '{' none rfl (fun _ => accentGroup?_of_head?_ne) ?_ cs
  intro inner
  rw [accentGroup?, accentGroup?, accent?_crlf]
  split
  · next accent haccent =>
    simp only [(onLine_accent? haccent).fits.drop_eq, head?_crlf_iff (c := '}') rfl]
  · rfl

/-- An accent in a group stands on one line. -/
theorem onLine_accentGroup? {cs : List Char} {accent : Accent}
    (h : accentGroup? cs = some accent) : OnLine cs accent.length := by
  unfold accentGroup? at h
  split at h
  · split at h
    · next haccent =>
      split at h
      · next hclosing =>
        obtain rfl := Option.some.inj h
        exact .cons (by decide) ((onLine_accent? haccent).add (.one (by decide) hclosing))
      · cases h
    · cases h
  · cases h

/-! ## Dimensions -/

/-- A sign is the same in both texts. -/
theorem signLength_crlf (cs : List Char) : signLength (crlf cs) = signLength cs := by
  simp only [signLength, head?_crlf_iff (c := '-') rfl]

/-- A sign stands on one line. -/
theorem onLine_signLength (cs : List Char) : OnLine cs (signLength cs) := by
  unfold signLength
  split
  · next hhead => exact .one (by decide) hhead
  · exact .zero cs

/-- A run of digits is the same in both texts. -/
theorem digitRun_crlf (cs : List Char) : digitRun (crlf cs) = digitRun cs := by
  rw [digitRun, digitRun, takeWhile_crlf_of_line rfl rfl]

/-- A run of digits stands on one line. -/
theorem onLine_digitRun (cs : List Char) : OnLine cs (digitRun cs) := OnLine.takeWhile rfl cs

/-- A fraction is the same in both texts. -/
theorem fractionLength_crlf (cs : List Char) : fractionLength (crlf cs) = fractionLength cs := by
  refine eq_crlf_of_head? '.' 0 rfl (fun _ => fractionLength_of_head?_ne) ?_ cs
  intro digits
  rw [fractionLength, fractionLength, digitRun_crlf]

/-- A fraction stands on one line. -/
theorem onLine_fractionLength (cs : List Char) : OnLine cs (fractionLength cs) := by
  unfold fractionLength
  split
  · next digits =>
    split
    · exact .zero _
    · rw [Nat.add_comm]
      exact .cons (by decide) (onLine_digitRun digits)
  · exact .zero cs

/-- The number before a unit is on one line. -/
theorem onLine_quantityLength (cs : List Char) : OnLine cs (quantityLength cs) :=
  ((onLine_signLength cs).add (onLine_digitRun _)).add (onLine_fractionLength _)

/-- A quantity is the same in both texts. -/
theorem quantityLength_crlf (cs : List Char) : quantityLength (crlf cs) = quantityLength cs := by
  have hsign := onLine_signLength cs
  have hwhole := hsign.add (onLine_digitRun _)
  simp only [quantityLength, signLength_crlf, hsign.fits.drop_eq, digitRun_crlf,
    hwhole.fits.drop_eq, fractionLength_crlf]

/-- A unit begins both texts or neither. -/
theorem any_units_crlf (cs : List Char) :
    units.any (startsWith (crlf cs)) = units.any (startsWith cs) := by
  have hunits : ∀ unit ∈ units, Unbroken unit := by decide
  rw [Bool.eq_iff_iff, List.any_eq_true, List.any_eq_true]
  refine exists_congr fun unit => and_congr_right fun hunit => ?_
  rw [startsWith_crlf (hunits unit hunit)]

/-- A unit stands on one line. -/
theorem onLine_unit {cs : List Char} (h : units.any (startsWith cs) = true) : OnLine cs 2 := by
  have hunits : units.all (fun unit => unit.length == 2 && !unit.contains '\n') = true := by decide
  obtain ⟨unit, hunit, hstarts⟩ := List.any_eq_true.mp h
  obtain ⟨rest, rfl⟩ := startsWith_iff.mp hstarts
  obtain ⟨hlength, hline⟩ : unit.length = 2 ∧ '\n' ∉ unit := by
    simpa using List.all_eq_true.mp hunits unit hunit
  rw [← hlength]
  exact .of_append hline rest

section Dimension

variable {opening closing : Char} (hopening : isLineEnd opening = false)
  (hclosing : isLineEnd closing = false)

include hopening hclosing

/-- A length between delimiters is the same in both texts. -/
theorem dimension?_crlf (cs : List Char) :
    dimension? opening closing (crlf cs) = dimension? opening closing cs := by
  refine eq_crlf_of_head? opening none hopening ?_ ?_ cs
  -- without the opening delimiter there is no length
  · intro cs hhead
    cases cs with
    | nil => rfl
    | cons c cs =>
      have hc : c ≠ opening := by simpa using hhead
      simp [dimension?, hc]
  · intro cs
    have hquantity := (onLine_quantityLength cs).fits.drop_eq
    simp only [dimension?, quantityLength_crlf, hquantity, any_units_crlf]
    by_cases hunit : units.any (startsWith (cs.drop (quantityLength cs))) = true
    · simp only [(onLine_unit hunit).fits.drop_eq, head?_crlf_iff hclosing]
    · simp [hunit]

/-- A length between delimiters stands on one line. -/
theorem onLine_dimension? {cs : List Char} {n : Nat} (h : dimension? opening closing cs = some n) :
    OnLine cs n := by
  have hne {c : Char} (hc : isLineEnd c = false) : c ≠ '\n' := by
    rintro rfl
    exact absurd hc (by decide)
  unfold dimension? at h
  split at h
  · cases h
  · next c cs =>
    dsimp only at h
    split at h
    · next hunit =>
      obtain ⟨rfl, hunit, hhead⟩ := hunit
      obtain rfl := Option.some.inj h
      -- quantity, unit and closing delimiter follow each other
      have hend := (onLine_unit hunit).add (.one (hne hclosing) hhead)
      exact .cons (hne hopening) ((onLine_quantityLength cs).add hend)
    · cases h

end Dimension

end ProseLens.Token
