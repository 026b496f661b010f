import ProseLens.Proofs.Extract.FormulaBody

/-!
# What a formula within a line is read as

A formula between dollar signs whose body is simple is read as a placeholder word.  The first
character of the body that is no filler decides what the word begins with, the last one stays behind
the word if it is punctuation, and a tie or an alignment mark after that leaves a space.  A formula
of fillers is not read as anything.

Punctuation or a space that waits from the text before the formula may still be remembered inside
of it.  The first character that is no filler makes both be forgotten, and without such a character
there is no placeholder to take them over.

## Key results

- `Shown.foldl_after_eq`: what is remembered after a body that shows something
- `step_dollar_opening`, `step_dollar_closing`: the two delimiters
- `inline_formula_text`: what the formula adds to the plain text
-/

namespace ProseLens

namespace Extract

/-- The characters that show nothing in a formula. -/
def fillers : List Char := [' ', '\t', '\r', '\n', '~', '&']

/-- The fillers, as a list. -/
theorem isFiller_iff {c : Char} : isFiller c = true ↔ c ∈ fillers := by
  simp [isFiller, Token.isBlank, Token.isLineEnd, fillers, or_assoc, or_left_comm, or_comm]

/-- A character shows something in a formula if it is not in that list. -/
theorem isFiller_eq_false_iff {c : Char} : isFiller c = false ↔ c ∉ fillers := by
  rw [← isFiller_iff, Bool.not_eq_true]

/-- A text that is not all fillers has a first character that is none. -/
theorem exists_first_of_not_fillers {body : List Char} (h : ¬ ∀ c ∈ body, c ∈ fillers) :
    ∃ front first more, body = front ++ first :: more ∧ (∀ c ∈ front, c ∈ fillers) ∧
      first ∉ fillers := by
  induction body with
  | nil => exact absurd (by simp) h
  | cons c body ih =>
    -- the first character that is no filler ends the front
    by_cases hc : c ∈ fillers
    · have hbody : ¬ ∀ d ∈ body, d ∈ fillers := by
        intro hall
        exact h (List.forall_mem_cons.mpr ⟨hc, hall⟩)
      obtain ⟨front, first, more, rfl, hfront, hfirst⟩ := ih hbody
      exact ⟨c :: front, first, more, rfl, List.forall_mem_cons.mpr ⟨hc, hfront⟩, hfirst⟩
    · exact ⟨[], c, body, rfl, by simp, hc⟩

/-- And a last one. -/
theorem exists_last_of_not_fillers {body : List Char} (h : ¬ ∀ c ∈ body, c ∈ fillers) :
    ∃ less last back, body = less ++ last :: back ∧ (∀ c ∈ back, c ∈ fillers) ∧
      last ∉ fillers := by
  have hnot : ¬ ∀ c ∈ body.reverse, c ∈ fillers := by simpa using h
  obtain ⟨front, last, more, hreverse, hfront, hlast⟩ := exists_first_of_not_fillers hnot
  refine ⟨more.reverse, last, front.reverse, ?_, by simpa using hfront, hlast⟩
  rw [← List.reverse_reverse body, hreverse]
  simp

/-- The text that stands for a formula within a line: the placeholder word, the punctuation that the
    body ends with, and a space if a tie or an alignment mark comes after that.  Fillers at either
    end of the body do not count, and a body of fillers has no text. -/
def formulaText (language : String) (number : Nat) (body : List Char) : String :=
  match body.find? (· ∉ fillers), body.reverse.find? (· ∉ fillers) with
  | some first, some last =>
    let vowel := first.toLower ∈ ['a', 'e', 'f', 'h', 'i', 'l', 'm', 'n', 'o', 'r', 's', 'x']
    let back := body.reverse.takeWhile (· ∈ fillers)
    Placeholder.singular.word language number vowel ++
      (if last ∈ ['.', ',', ':', ';', '\u2026'] then last.toString else "") ++
      (if '~' ∈ back ∨ '&' ∈ back then " " else "")
  | _, _ => ""

/-- A formula of fillers is read as nothing. -/
theorem formulaText_of_fillers {body : List Char} (hbody : ∀ c ∈ body, c ∈ fillers)
    (language : String) (number : Nat) : formulaText language number body = "" := by
  have hfirst : body.find? (· ∉ fillers) = none := by simpa using hbody
  simp only [formulaText, hfirst]

/-- A formula that shows something is read by its first and last character that is no filler, and by
    the fillers after the latter. -/
theorem formulaText_eq {body front more less back : List Char} {first last : Char}
    (hbody : body = front ++ first :: more) (hfront : ∀ c ∈ front, c ∈ fillers)
    (hfirst : first ∉ fillers) (hbody' : body = less ++ last :: back)
    (hback : ∀ c ∈ back, c ∈ fillers) (hlast : last ∉ fillers) (language : String) (number : Nat) :
    formulaText language number body =
      Placeholder.singular.word language number (hasVowelName first) ++
        (if isPunctuation last then last.toString else "") ++
        (if '~' ∈ back ∨ '&' ∈ back then " " else "") := by
  have hreverse : body.reverse = back.reverse ++ last :: less.reverse := by
    rw [hbody']
    simp
  have hback' : ∀ c ∈ back.reverse, c ∈ fillers := by simpa using hback
  -- the first one is found from the front
  have hfind : body.find? (· ∉ fillers) = some first := by
    rw [hbody, List.find?_append, List.find?_eq_none.mpr (by simpa using hfront), Option.none_or]
    exact List.find?_cons_of_pos (by simpa using hfirst)
  -- and the last one from the back
  have hfind' : body.reverse.find? (· ∉ fillers) = some last := by
    rw [hreverse, List.find?_append, List.find?_eq_none.mpr (by simpa using hback), Option.none_or]
    exact List.find?_cons_of_pos (by simpa using hlast)
  have htake : body.reverse.takeWhile (· ∈ fillers) = back.reverse := by
    rw [hreverse, List.takeWhile_append_of_pos (by simpa using hback),
      List.takeWhile_cons_of_neg (by simpa using hlast), List.append_nil]
  have hvowel : hasVowelName first = decide (first.toLower ∈
      ['a', 'e', 'f', 'h', 'i', 'l', 'm', 'n', 'o', 'r', 's', 'x']) :=
    List.contains_eq_mem _ _
  have hpunctuation : isPunctuation last = true ↔ last ∈ ['.', ',', ':', ';', '\u2026'] := by
    simp [isPunctuation, or_assoc]
  simp only [formulaText, hfind, hfind', htake, hvowel, hpunctuation, List.mem_reverse]

namespace Shown

/-- Fillers may ask for a space, and that is all. -/
theorem foldl_after_fillers {body : List Char} (hbody : ∀ c ∈ body, c ∈ fillers) (shown : Shown) :
    body.foldl after shown = ⟨shown.empty, shown.lead, shown.punctuation,
      shown.space || decide ('~' ∈ body ∨ '&' ∈ body)⟩ := by
  induction body generalizing shown with
  | nil => simp
  | cons c body ih =>
    obtain ⟨hc, hbody⟩ := List.forall_mem_cons.mp hbody
    rw [List.foldl_cons, ih hbody, after_filler shown (isFiller_iff.mpr hc)]
    -- a filler shows a space just when it is a tie or an ampersand
    have hspace : (shown.space || c == '~' || c == '&' || decide ('~' ∈ body ∨ '&' ∈ body)) =
        (shown.space || decide ('~' ∈ c :: body ∨ '&' ∈ c :: body)) := by
      rw [Bool.eq_iff_iff]
      simp only [Bool.or_eq_true, beq_iff_eq, decide_eq_true_eq, List.mem_cons, eq_comm (a := c)]
      tauto
    rw [hspace]

/-- What the first token has decided stays. -/
theorem lead_foldl_after {shown : Shown} (hlead : shown.lead ≠ .undecided) (body : List Char) :
    (body.foldl after shown).lead = shown.lead := by
  induction body generalizing shown with
  | nil => rfl
  | cons c body ih =>
    have hnext : (shown.after c).lead = shown.lead := by
      cases hc : isFiller c with
      | true => rw [after_filler shown hc]
      | false =>
        rw [after_token shown hc]
        -- once decided the lead is not touched again
        cases hdecided : shown.lead with
        | undecided => exact absurd hdecided hlead
        | vowel => rfl
        | consonant => rfl
    rw [List.foldl_cons, ih (by rwa [hnext]), hnext]

/-- The first character that is no filler decides the lead. -/
theorem lead_foldl_after_append {shown : Shown} (hlead : shown.lead = .undecided)
    {front : List Char} {first : Char} (hfront : ∀ c ∈ front, c ∈ fillers)
    (hfirst : first ∉ fillers) (more : List Char) :
    ((front ++ first :: more).foldl after shown).lead =
      if hasVowelName first then .vowel else .consonant := by
  have hnext : (after (front.foldl after shown) first).lead =
      if hasVowelName first then .vowel else .consonant := by
    rw [after_token _ (isFiller_eq_false_iff.mpr hfirst), foldl_after_fillers hfront]
    dsimp only
    rw [hlead]
    rfl
  rw [List.foldl_append, List.foldl_cons, lead_foldl_after _ more, hnext]
  rw [hnext]
  split <;> decide

/-- What is remembered after a body that shows something.  Of what was remembered before only the
    lead matters, and a formula begins without one. -/
theorem foldl_after_eq {shown : Shown} (hlead : shown.lead = .undecided)
    {body front more less back : List Char} {first last : Char}
    (hbody : body = front ++ first :: more) (hfront : ∀ c ∈ front, c ∈ fillers)
    (hfirst : first ∉ fillers) (hbody' : body = less ++ last :: back)
    (hback : ∀ c ∈ back, c ∈ fillers) (hlast : last ∉ fillers) :
    body.foldl after shown = ⟨false, if hasVowelName first then .vowel else .consonant,
      if isPunctuation last then some last else none, decide ('~' ∈ back ∨ '&' ∈ back)⟩ := by
  have hvowel := lead_foldl_after_append hlead hfront hfirst more
  rw [← hbody] at hvowel
  have hwaits : body.foldl after shown = ⟨false, (body.foldl after shown).lead,
      if isPunctuation last then some last else none, decide ('~' ∈ back ∨ '&' ∈ back)⟩ := by
    rw [hbody', List.foldl_append, List.foldl_cons,
      after_token _ (isFiller_eq_false_iff.mpr hlast), foldl_after_fillers hback, Bool.false_or]
  rw [hwaits, hvowel]

end Shown

end Extract

namespace Extractor

open Extract State

variable {x : Extractor} {s t : State} {cs : List Char}

/-! ## The delimiters -/

/-- A dollar sign enters a formula.  What waits is not taken over, though it may still be
    remembered. -/
theorem step_dollar_opening (hmode : s.modes.top ∈ [.paragraphText, .inlineText, .heading])
    (hsingle : cs.head? ≠ some '$') (hrest : s.rest = '$' :: cs) :
    (x.step s).rest = cs ∧ State.Agrees s (x.step s) ∧
      (x.step s).modes = s.modes.push .inlineMath ∧ (x.step s).pending.kept = false ∧
      (x.step s).formula = .entered := by
  obtain ⟨hfree, houtside⟩ := outside_of_prose hmode
  have hdollar : x.construct (begun s) '$' = x.dollar (begun s) := construct_of_free hfree '$'
  have hdouble : ¬ Text.startsWith (begun s).rest ['$', '$'] = true := by
    rw [rest_begun, hrest, startsWith_dollars hsingle]
    exact Bool.false_ne_true
  have hstep : x.step s = (begun s).enterInlineMath.markup 1 := by
    rw [step_eq_settle hrest, hdollar, dollar, if_neg hdouble, mode_begun, if_neg houtside, settle,
      trivial_markup]
    exact if_pos rfl
  have htake : (begun s).enterInlineMath.rest.take 1 ≠ [] :=
    s.take_ne_nil Nat.one_pos (by simp [hrest])
  have hagrees : Agrees s (begun s).enterInlineMath := ⟨rfl, rfl, rfl⟩
  rw [hstep]
  refine ⟨?_, hagrees.markup 1, modes_markup _ 1, ?_, formula_markup _ 1⟩
  · rw [rest_markup]
    show s.rest.drop 1 = cs
    rw [hrest]
    rfl
  · -- markup never leaves anything to be kept over the next one
    rw [markup_eq _ 1 htake]
    show (Pending.afterMarkup s.pending).kept = false
    unfold Pending.afterMarkup
    split
    · rfl
    · next hkept =>
      show s.pending.kept = false
      simpa using hkept

/-- The text that stands for a formula within a line. -/
theorem substitute_of_inlineMath (htop : t.modes.top = .inlineMath) :
    x.substitute t = if t.formula.empty then "" else
      Placeholder.singular.word x.options.language t.placeholders (t.formula.lead == .vowel) ++
        t.pending.punctuation.elim "" Char.toString ++ if t.pending.space then " " else "" := by
  have hmode : (begun t).pop.mode = .inlineMath := htop
  have hpunctuation : (begun t).pop.pendingPunctuation =
      t.pending.punctuation.elim "" Char.toString := pendingPunctuation_eq _
  simp only [substitute, standIn, hmode, hpunctuation]
  rfl

/-- A dollar sign leaves a formula within a line, and uses up a placeholder unless the formula has
    shown nothing. -/
theorem step_dollar_closing (htop : t.modes.top = .inlineMath) (hsingle : cs.head? ≠ some '$')
    (hrest : t.rest = '$' :: cs) :
    (x.step t).rest = cs ∧ (x.step t).modes = t.modes.pop ∧
      (x.step t).builder.plain = t.builder.plain ++ x.substitute t ∧
      (x.step t).placeholders = if t.formula.empty then t.placeholders else t.placeholders + 1 := by
  have hfree : (begun t).mode.isOpaque = false := by rw [mode_begun, htop]; rfl
  have hdollar : x.construct (begun t) '$' = x.dollar (begun t) := construct_of_free hfree '$'
  -- a second dollar sign would be looked for first
  have hdouble : ¬ Text.startsWith (begun t).rest ['$', '$'] = true := by
    rw [rest_begun, hrest, startsWith_dollars hsingle]
    exact Bool.false_ne_true
  have hinside : (begun t).mode = .inlineMath := by rw [mode_begun, htop]
  have hstep : x.step t = settle ((begun t).pop.replace 1 x.options.language .singular) := by
    rw [step_eq_settle hrest, hdollar, dollar, if_neg hdouble, if_pos hinside]
  obtain ⟨hdrop, hplain⟩ := step_of_replace (by simp [hrest]) hstep rfl rfl
  refine ⟨by rw [hdrop, hrest]; rfl, ?_, hplain, ?_⟩
  · rw [hstep, modes_settle, modes_replace]
    rfl
  · rw [hstep, placeholders_settle, placeholders_replace]
    -- the formula is not prose, so that its placeholder counts unless it is empty
    have hword : (begun t).pop.hasWord = !t.formula.empty := by
      show ((begun t).mode.isText || !t.formula.empty) = _
      rw [hinside]
      rfl
    rw [hword]
    cases t.formula.empty <;> rfl

/-! ## The whole formula -/

/-- A dollar sign is never all that keeps a step from going on. -/
theorem leads_step_dollar (hrest : t.rest = '$' :: cs) : x.Leads t (x.step t) := by
  refine leads_step (by simp [hrest]) ?_
  rintro ⟨hlone, -⟩
  rw [hrest] at hlone
  exact absurd (List.cons.inj hlone).1 (by decide)

/-- A formula is empty behind a body of fillers, and behind any other body the placeholder and what
    waits make up its text. -/
theorem substitute_behind {body : List Char} {shown : Shown} (htop : t.modes.top = .inlineMath)
    (hempty : shown.empty = true) (hlead : shown.lead = .undecided)
    (hshown : t.shown = body.foldl Shown.after shown) :
    t.formula.empty = body.all (· ∈ fillers) ∧
      x.substitute t = formulaText x.options.language t.placeholders body := by
  by_cases hall : ∀ c ∈ body, c ∈ fillers
  · have hnone : t.formula.empty = true := by
      rw [Shown.foldl_after_fillers hall] at hshown
      exact (congrArg Shown.empty hshown).trans hempty
    rw [substitute_of_inlineMath htop, hnone, if_pos rfl, formulaText_of_fillers hall]
    exact ⟨(by simpa using hall), rfl⟩
  · obtain ⟨front, first, more, hbody, hfront, hfirst⟩ := exists_first_of_not_fillers hall
    obtain ⟨less, last, back, hbody', hback, hlast⟩ := exists_last_of_not_fillers hall
    rw [Shown.foldl_after_eq hlead hbody hfront hfirst hbody' hback hlast] at hshown
    have hsome : t.formula.empty = false := congrArg Shown.empty hshown
    have hvowel : t.formula.lead = if hasVowelName first then .vowel else .consonant :=
      congrArg Shown.lead hshown
    have hwaits : t.pending.punctuation = if isPunctuation last then some last else none :=
      congrArg Shown.punctuation hshown
    have hspace : t.pending.space = decide ('~' ∈ back ∨ '&' ∈ back) :=
      congrArg Shown.space hshown
    -- the word and what stays behind it
    have hword : ((if hasVowelName first then Lead.vowel else .consonant) == .vowel) =
        hasVowelName first := by
      cases hasVowelName first <;> rfl
    have hbehind : (if isPunctuation last then some last else none).elim "" Char.toString =
        if isPunctuation last then last.toString else "" := by
      split <;> rfl
    have hshows : body.all (· ∈ fillers) = false := by
      rw [← Bool.not_eq_true]
      simpa using hall
    refine ⟨hsome.trans hshows.symm, ?_⟩
    rw [substitute_of_inlineMath htop, hsome, if_neg Bool.false_ne_true, hvowel, hwaits, hspace,
      hword, hbehind, formulaText_eq hbody hfront hfirst hbody' hback hlast]
    simp only [decide_eq_true_eq]

/-- From prose of whatever kind and whatever is remembered there, a formula between dollar signs
    whose body is simple, and which no dollar sign follows, is read up to its end.  It leaves the
    modes as they were and adds its text to the plain text, and unless its body is all fillers a
    placeholder is used up. -/
theorem inline_formula_text (x : Extractor) (s : State)
    (hmode : s.modes.top ∈ [.paragraphText, .inlineText, .heading]) (body rest : List Char)
    (hne : body ≠ []) (hbody : ∀ c ∈ body,
      c ∉ ['\\', '{', '}', '$', '%', '[', '<', '\x60', '\x27', '\x22'])
    (hnext : rest.head? ≠ some '$') (hrest : s.rest = '$' :: (body ++ '$' :: rest)) :
    ∃ u, x.Leads s u ∧ u.rest = rest ∧ u.modes = s.modes ∧
      u.builder.plain = s.builder.plain ++ formulaText x.options.language s.placeholders body ∧
      u.placeholders =
        if body.all (· ∈ fillers) then s.placeholders else s.placeholders + 1 := by
  have hsimple : body.all Text.isSimple = true := by
    rw [List.all_eq_true]
    exact fun c hc => Text.isSimple_iff.mpr (hbody c hc)
  have hsingle : (body ++ '$' :: rest).head? ≠ some '$' := by
    obtain ⟨c, more, rfl⟩ := List.exists_cons_of_ne_nil hne
    intro hdollar
    exact hbody c List.mem_cons_self (by simp [Option.some.inj hdollar])
  -- the opening, the body and the closing
  obtain ⟨hopened, hagrees, hmodes, hkept, hentered⟩ :=
    step_dollar_opening (x := x) hmode hsingle hrest
  obtain ⟨t, hthrough, htrest, hbehind⟩ :=
    leads_behind_body (x := x) (by rw [hmodes]; rfl) hkept hsimple rfl hopened
  have htmodes : t.modes = s.modes.push .inlineMath := hbehind.modes_eq.trans hmodes
  have htop : t.modes.top = .inlineMath := by rw [htmodes, ModeStack.top_push]
  obtain ⟨hurest, humodes, huplain, huplaceholders⟩ :=
    step_dollar_closing (x := x) htop hnext htrest
  have htold : State.Agrees s t := hagrees.trans hbehind.agrees
  obtain ⟨hempty, hsubstitute⟩ := substitute_behind (x := x) htop
    (congrArg Formula.empty hentered) (congrArg Formula.lead hentered) hbehind.shown_eq
  refine ⟨x.step t, (leads_step_dollar hrest).trans (hthrough.trans (leads_step_dollar htrest)),
    hurest, ?_, ?_, ?_⟩
  · rw [humodes, htmodes, ModeStack.pop_push]
  · rw [huplain, hsubstitute, htold.plain_eq, htold.placeholders_eq]
  · rw [huplaceholders, hempty, htold.placeholders_eq]

/-- A formula that begins with a vowel and ends with a comma and a tie. -/
theorem inline_formula_text_symbol :
    ∃ u, Extractor.builtin.Leads (.start "$ x,~$so".toList 0) u ∧ u.rest = "so".toList ∧
      u.builder.plain = "Ina0, " ∧ u.placeholders = 1 := by
  obtain ⟨u, hleads, hrest, -, hplain, hplaceholders⟩ := inline_formula_text Extractor.builtin
    (.start "$ x,~$so".toList 0) (by decide) [' ', 'x', ',', '~'] ['s', 'o'] (by simp) (by simp)
    (by simp) rfl
  refine ⟨u, hleads, hrest, ?_, ?_⟩
  · rw [hplain]
    decide +kernel
  · rw [hplaceholders]
    decide +kernel

end Extractor

end ProseLens
