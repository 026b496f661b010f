import ProseLens.Proofs.Extract.Words

/-!
# What is remembered of a formula

Between its opening and its closing a formula adds nothing to the plain text.  What is remembered of
it is whether it has shown anything yet, what its first token begins with, and what waits for its
placeholder (`Shown`).  Its body changes that character by character (`Shown.after`), and the
closing delimiter puts one text in the place of it all.

## Key results

- `leads_behind_body`: a simple body is passed over, and its characters are remembered one by one
- `leads_simple_body`: whether a formula is empty and which punctuation waits after a simple body
- `step_dollars_opening`, `step_bracket_opening`, `step_environment_opening`: what is remembered
  after the opening
- `InFormula.substitute_eq`: the text in the place of a formula on lines of its own
-/

namespace ProseLens

namespace Extract

/-- A character that shows nothing in a formula: a blank, a tie or an alignment mark. -/
def isFiller (c : Char) : Bool := Token.isBlank c || c == '~' || c == '&'

/-- The punctuation that waits after `body`: its last character that is no filler, if that is
    punctuation.  A body of fillers leaves what waited `before`. -/
def waiting (before : Option Char) (body : List Char) : Option Char :=
  match (body.filter (!isFiller ·)).getLast? with
  | some c => if isPunctuation c then some c else none
  | none => before

/-- A filler changes nothing about what waits. -/
theorem waiting_filler {c : Char} (hc : isFiller c = true) (before : Option Char)
    (body : List Char) : waiting before (c :: body) = waiting before body := by
  simp [waiting, hc]

/-- Any other character decides anew what waits, until the next one. -/
theorem waiting_cons {c : Char} (hc : isFiller c = false) (before : Option Char)
    (body : List Char) :
    waiting before (c :: body) = waiting (if isPunctuation c then some c else none) body := by
  simp only [waiting, List.filter_cons, hc, Bool.not_false, if_true, List.getLast?_cons]
  cases (body.filter (!isFiller ·)).getLast? <;> rfl

/-- What comes before the last character that is no filler does not matter. -/
theorem waiting_append_of_shown {back : List Char} (hback : back.all isFiller = false)
    (before : Option Char) (front : List Char) :
    waiting before (front ++ back) = waiting before back := by
  have hne : back.filter (!isFiller ·) ≠ [] := by
    rw [ne_eq, List.filter_eq_nil_iff]
    intro hall
    rw [← Bool.not_eq_true, List.all_eq_true] at hback
    exact hback fun c hc => by simpa using hall c hc
  obtain ⟨c, hc⟩ := Option.isSome_iff_exists.mp (List.getLast?_isSome.mpr hne)
  simp only [waiting, List.filter_append, List.getLast?_append, hc, Option.some_or]

/-- What is remembered of a formula: whether it is `empty` so far, what its first token begins with,
    and what waits for its placeholder. -/
structure Shown where
  /-- It has shown nothing yet. -/
  empty : Bool
  /-- What its first token begins with. -/
  lead : Lead
  /-- Punctuation after the word. -/
  punctuation : Option Char
  /-- A space after the word. -/
  space : Bool

namespace Shown

/-- What is remembered after one more character.  A filler shows nothing, though a tie or an
    alignment mark asks for a space.  Anything else is a token, and what waited is forgotten. -/
def after (shown : Shown) (c : Char) : Shown :=
  if isFiller c then { shown with space := shown.space || c == '~' || c == '&' }
  else
    { empty := false
      lead := shown.lead.orElse (if hasVowelName c then .vowel else .consonant)
      punctuation := if isPunctuation c then some c else none
      space := false }

/-- A filler shows nothing, but a tie or an alignment mark asks for a space. -/
theorem after_filler (shown : Shown) {c : Char} (hc : isFiller c = true) :
    shown.after c = ⟨shown.empty, shown.lead, shown.punctuation,
      shown.space || c == '~' || c == '&'⟩ :=
  if_pos hc

/-- Any other character makes the formula one that shows something, and may be its lead. -/
theorem after_token (shown : Shown) {c : Char} (hc : isFiller c = false) :
    shown.after c = ⟨false, shown.lead.orElse (if hasVowelName c then .vowel else .consonant),
      if isPunctuation c then some c else none, false⟩ :=
  if_neg (by simp [hc])

/-- A blank leaves what is shown as it is. -/
theorem after_blank (shown : Shown) {c : Char} (hc : Token.isBlank c = true) :
    shown.after c = shown := by
  have htie : c ≠ '~' := by
    rintro rfl
    exact absurd hc (by decide)
  have halignment : c ≠ '&' := by
    rintro rfl
    exact absurd hc (by decide)
  rw [after_filler shown (by simp [isFiller, hc]), beq_false_of_ne htie, beq_false_of_ne halignment,
    Bool.or_false, Bool.or_false]

/-- Several blanks leave what is shown as it is. -/
theorem foldl_after_blanks {blanks : List Char} (hblanks : ∀ c ∈ blanks, Token.isBlank c = true)
    (shown : Shown) : blanks.foldl after shown = shown := by
  induction blanks with
  | nil => rfl
  | cons c blanks ih =>
    obtain ⟨hc, hblanks⟩ := List.forall_mem_cons.mp hblanks
    rw [List.foldl_cons, after_blank shown hc, ih hblanks]

/-- A formula stays empty as long as there are fillers only. -/
theorem empty_foldl_after (shown : Shown) (body : List Char) :
    (body.foldl after shown).empty = (shown.empty && body.all isFiller) := by
  induction body generalizing shown with
  | nil => simp
  | cons c body ih =>
    rw [List.foldl_cons, ih, List.all_cons]
    cases hc : isFiller c with
    | true => rw [after_filler shown hc, Bool.true_and]
    | false => simp [after_token shown hc]

/-- What waits after a body is what waits after its last character that is no filler. -/
theorem punctuation_foldl_after (shown : Shown) (body : List Char) :
    (body.foldl after shown).punctuation = waiting shown.punctuation body := by
  induction body generalizing shown with
  | nil => rfl
  | cons c body ih =>
    rw [List.foldl_cons, ih]
    cases hc : isFiller c with
    | true => rw [after_filler shown hc, waiting_filler hc]
    | false => rw [after_token shown hc, waiting_cons hc]

end Shown

/-- What `t` remembers of the formula that it is in. -/
def State.shown (t : State) : Shown :=
  ⟨t.formula.empty, t.formula.lead, t.pending.punctuation, t.pending.space⟩

/-- `t` is in the same formula as `s`, behind `body`. -/
structure Behind (s t : State) (body : List Char) : Prop where
  agrees : State.Agrees s t
  modes_eq : t.modes = s.modes
  kept_eq : t.pending.kept = false
  shown_eq : t.shown = body.foldl Shown.after s.shown

/-- Two parts of a body are read one after the other. -/
theorem Behind.trans {s t u : State} {first second : List Char} (h : Behind s t first)
    (h' : Behind t u second) : Behind s u (first ++ second) where
  agrees := h.agrees.trans h'.agrees
  modes_eq := h'.modes_eq.trans h.modes_eq
  kept_eq := h'.kept_eq
  shown_eq := by rw [h'.shown_eq, h.shown_eq, List.foldl_append]

/-- `t` is in a formula that was opened in `s`.  Nothing was added to the plain text since then; the
    formula may be `empty` so far, and `punctuation` waits for its end. -/
structure InFormula (s t : State) (mode : Mode) (empty : Bool) (punctuation : Option Char) :
    Prop where
  agrees : State.Agrees s t
  modes_eq : t.modes = s.modes.push mode
  kept_eq : t.pending.kept = false
  punctuation_eq : t.pending.punctuation = punctuation
  empty_eq : t.formula.empty = empty

namespace InFormula

variable {s t : State} {mode : Mode} {empty : Bool} {punctuation : Option Char}

/-- Inside of the formula, its mode is the innermost one. -/
theorem top_eq (h : InFormula s t mode empty punctuation) : t.modes.top = mode := by
  rw [h.modes_eq, ModeStack.top_push]

/-- The body decides whether the formula is empty and which punctuation waits. -/
theorem behind {u : State} {body : List Char} (h : InFormula s t mode empty punctuation)
    (hbehind : Behind t u body) :
    InFormula s u mode (empty && body.all isFiller) (waiting punctuation body) := by
  refine ⟨h.agrees.trans hbehind.agrees, hbehind.modes_eq.trans h.modes_eq, hbehind.kept_eq, ?_, ?_⟩
  · show u.shown.punctuation = _
    rw [hbehind.shown_eq, Shown.punctuation_foldl_after, ← h.punctuation_eq]
    rfl
  · show u.shown.empty = _
    rw [hbehind.shown_eq, Shown.empty_foldl_after, ← h.empty_eq]
    rfl

/-- Markup that nothing is kept over forgets the punctuation. -/
theorem markup (h : InFormula s t mode empty none) (n : Nat) :
    InFormula s (t.markup n) mode empty none := by
  -- at the end of the text nothing is recorded and nothing pending is cleared
  by_cases hnone : t.rest.take n = []
  · have hsame : t.markup n = t := by simp [State.markup, hnone]
    rwa [hsame]
  · have hpending : (t.markup n).pending = t.pending.clear := by
      rw [State.markup_eq t n hnone]
      exact if_neg (by simp [h.kept_eq])
    refine ⟨h.agrees.markup n, by rw [State.modes_markup, h.modes_eq], ?_, ?_, ?_⟩
    · rw [hpending]
      exact h.kept_eq
    · rw [hpending]
      rfl
    · rw [State.markup_eq t n hnone]
      exact h.empty_eq

end InFormula

end Extract

namespace Extractor

open Extract State

variable {x : Extractor} {s t : State} {mode : Mode} {empty : Bool} {punctuation : Option Char}
  {cs body : List Char}

/-! ## The body of a formula -/

section Body

variable (hmath : t.modes.top.isMath = true)
include hmath

/-- A filler shows nothing.  Blanks are passed over in one go. -/
theorem step_filler {c : Char} (hc : isFiller c = true) (hrest : t.rest = c :: cs) :
    Behind t (x.step t) [c] ∧ (x.step t).rest = t.rest.drop
      (if c = '~' ∨ c = '&' then 1 else (Token.blanks? t.rest).getD 1) := by
  have hconstruct : x.construct (begun t) c = blank (begun t) c := by
    by_cases hblank : Token.isBlank c = true
    · exact construct_blank (Mode.isOpaque_of_isMath hmath) hblank
    · have hmark : c = '~' ∨ c = '&' := by simpa [isFiller, hblank] using hc
      rcases hmark with rfl | rfl <;> exact construct_of_free (Mode.isOpaque_of_isMath hmath) _
  have htext : ¬ (begun t).keepPending.markTrivial.mode.isText = true :=
    Mode.not_isText_of_isMath hmath
  generalize hn : (if c = '~' ∨ c = '&' then 1 else (Token.blanks? t.rest).getD 1) = n
  have hpos : 0 < n := by
    rw [← hn]
    split
    · exact Nat.one_pos
    · exact Token.blanks?_getD_pos t.rest
  have htake : (begun t).keepPending.markTrivial.rest.take n ≠ [] :=
    t.take_ne_nil hpos (by simp [hrest])
  have hlength : (if (c == '~' || c == '&') = true then 1
      else (Token.blanks? (begun t).rest).getD 1) = n := by
    rw [← hn, rest_begun]
    simp only [Bool.or_eq_true, beq_iff_eq]
  -- the markup spares what waits
  have hquiet : Agrees t ((begun t).keepPending.markTrivial.markup n) := by
    have hagrees : Agrees t (begun t).keepPending.markTrivial := ⟨rfl, rfl, rfl⟩
    exact hagrees.markup n
  have hpending : ((begun t).keepPending.markTrivial.markup n).pending =
      { t.pending with kept := false } := by
    rw [markup_eq _ n htake]
    rfl
  have hformula : ((begun t).keepPending.markTrivial.markup n).formula = t.formula :=
    formula_markup _ n
  have htrivial : ((begun t).keepPending.markTrivial.markup n).trivial = true := trivial_markup _ n
  rw [step_eq_settle hrest, hconstruct, blank]
  rw [hlength, if_neg htext]
  split
  · next hmark =>
    -- a space waits as well
    rw [settle, if_pos (by exact htrivial)]
    refine ⟨⟨hquiet.trans ⟨rfl, rfl, rfl⟩, modes_markup _ n, ?_, ?_⟩, rest_markup _ n⟩
    · rw [awaitSpace, hpending]
    · rw [List.foldl_cons, List.foldl_nil, Shown.after_filler _ hc, Bool.or_assoc, hmark,
        Bool.or_true]
      simp only [State.shown, awaitSpace, hpending, hformula]
  · next hmark =>
    rw [settle, if_pos htrivial]
    refine ⟨⟨hquiet, modes_markup _ n, ?_, ?_⟩, rest_markup _ n⟩
    · rw [hpending]
    · rw [Bool.not_eq_true] at hmark
      rw [List.foldl_cons, List.foldl_nil, Shown.after_filler _ hc, Bool.or_assoc, hmark,
        Bool.or_false]
      simp only [State.shown, hpending, hformula]

/-- Any other simple character is shown. -/
theorem step_character (hkept : t.pending.kept = false) {c : Char}
    (hsimple : Text.isSimple c = true) (hc : isFiller c = false) (hrest : t.rest = c :: cs) :
    Behind t (x.step t) [c] ∧ (x.step t).rest = cs := by
  have htext : ¬ (begun t).mode.isText = true := Mode.not_isText_of_isMath hmath
  -- no construct begins with the character
  have hother : c ∉ Text.specials ++ ['\x60', '\x27', '\x22'] := by
    have hnone : (Text.specials ++ ['\x60', '\x27', '\x22']).all
        (fun c => !Text.isSimple c || isFiller c) = true := by decide
    intro hmem
    have hcases := List.all_eq_true.mp hnone c hmem
    simp [hsimple, hc] at hcases
  have hdistinct : c ≠ '[' ∧ c ≠ '<' := by
    constructor <;> rintro rfl <;> exact absurd hsimple (by decide)
  have hplain : x.otherCharacter (begun t) c = plainCharacter (begun t) c := by
    rw [mode_begun] at htext
    simp [otherCharacter, htext, hdistinct]
  have htake : (begun t).rest.take 1 ≠ [] := t.take_ne_nil Nat.one_pos (by simp [hrest])
  -- markup drops what waits, since nothing is to be kept
  have hpending : ((begun t).markup 1).pending = t.pending.clear := by
    rw [markup_eq _ 1 htake]
    have hkept' : ¬ (begun t).pending.kept = true := by rw [Bool.not_eq_true]; exact hkept
    exact if_neg hkept'
  have htrivial : ¬ ((begun t).markup 1).trivial = true := by
    rw [trivial_markup]
    exact Bool.false_ne_true
  rw [step_eq_settle hrest, construct_other (Mode.isOpaque_of_isMath hmath) hother, hplain,
    plainCharacter, if_neg htext, settle, if_neg htrivial]
  have hagrees : Agrees t (begun t) := ⟨rfl, rfl, rfl⟩
  refine ⟨⟨(hagrees.markup 1).trans ⟨rfl, rfl, rfl⟩, modes_markup _ 1, ?_, ?_⟩, ?_⟩
  · show ((begun t).markup 1).pending.kept = false
    rw [hpending]
    exact hkept
  · rw [List.foldl_cons, List.foldl_nil, Shown.after_token _ hc]
    simp only [State.shown, hpending, formula_markup]
    rfl
  · show ((begun t).markup 1).rest = cs
    rw [rest_markup, rest_begun, hrest]
    rfl

/-- A simple body is passed over, and its characters are remembered one by one. -/
theorem leads_behind_body (hkept : t.pending.kept = false) (hbody : body.all Text.isSimple = true)
    (hnext : cs.head?.any (fun c => !Token.isBlank c && c != '%') = true)
    (hrest : t.rest = body ++ cs) : ∃ u, x.Leads t u ∧ u.rest = cs ∧ Behind t u body := by
  have hcs : cs ≠ [] := by
    rintro rfl
    simp at hnext
  -- by induction on the length, since blanks are passed over in one go
  induction hlength : body.length using Nat.strongRecOn generalizing body t with
  | ind length ih =>
    cases body with
    | nil => exact ⟨t, .refl t, hrest, ⟨⟨rfl, rfl, rfl⟩, rfl, hkept, rfl⟩⟩
    | cons c more =>
      have hleads : x.Leads t (x.step t) := leads_step_before hcs (List.cons_ne_nil c more) hrest
      -- what is passed over in this step
      obtain ⟨front, back, hsplit, hback, hrest', hbehind⟩ :
          ∃ front back, c :: more = front ++ back ∧ back.length < length ∧
            (x.step t).rest = back ++ cs ∧ Behind t (x.step t) front := by
        by_cases hfiller : isFiller c = true
        · obtain ⟨hbehind, hdrop⟩ := step_filler (x := x) hmath hfiller hrest
          rw [hrest] at hdrop
          split at hdrop
          · exact ⟨[c], more, rfl, by simp [← hlength], hdrop, hbehind⟩
          · next hmark =>
            have hcases : Token.isBlank c = true ∨ c = '~' ∨ c = '&' := by
              simpa [isFiller, or_assoc] using hfiller
            have hblank := hcases.resolve_right hmark
            rw [Token.blanks?_append hbody hnext (by simpa using hblank), Option.getD_some,
              List.drop_append_of_le_length (List.takeWhile_prefix _).length_le,
              Token.drop_length_takeWhile] at hdrop
            have hrun : ∀ d ∈ (c :: more).takeWhile Token.isBlank, Token.isBlank d = true :=
              List.all_eq_true.mp List.all_takeWhile
            refine ⟨_, _, List.takeWhile_append_dropWhile.symm, ?_, hdrop, ?_⟩
            · rw [List.dropWhile_cons_of_pos hblank, ← hlength, List.length_cons]
              exact Nat.lt_succ_of_le (List.dropWhile_suffix _).length_le
            · refine ⟨hbehind.agrees, hbehind.modes_eq, hbehind.kept_eq, ?_⟩
              -- all blanks of the run are remembered like the first one
              rw [hbehind.shown_eq, Shown.foldl_after_blanks hrun, List.foldl_cons, List.foldl_nil,
                Shown.after_blank _ hblank]
        · obtain ⟨hc, -⟩ := List.forall_mem_cons.mp (List.all_eq_true.mp hbody)
          obtain ⟨hbehind, hdrop⟩ := step_character (x := x) hmath hkept hc (by simpa using hfiller)
            hrest
          exact ⟨[c], more, rfl, by simp [← hlength], hdrop, hbehind⟩
      have hsimple : back.all Text.isSimple = true := by
        rw [hsplit, List.all_append, Bool.and_eq_true] at hbody
        exact hbody.2
      obtain ⟨u, hleads', hurest, hu⟩ := ih back.length hback (by rwa [hbehind.modes_eq])
        hbehind.kept_eq hsimple hrest' rfl
      refine ⟨u, hleads.trans hleads', hurest, ?_⟩
      rw [hsplit]
      exact hbehind.trans hu

omit hmath in
/-- A simple body is passed over.  The formula is not empty any more unless the body is all fillers,
    and the last punctuation of the body waits. -/
theorem leads_simple_body (h : InFormula s t mode empty punctuation) (hmath : mode.isMath = true)
    (hbody : body.all Text.isSimple = true)
    (hnext : cs.head?.any (fun c => !Token.isBlank c && c != '%') = true)
    (hrest : t.rest = body ++ cs) :
    ∃ u, x.Leads t u ∧ u.rest = cs ∧
      InFormula s u mode (empty && body.all isFiller) (waiting punctuation body) := by
  obtain ⟨u, hleads, hurest, hbehind⟩ :=
    leads_behind_body (x := x) (by rwa [h.top_eq]) h.kept_eq hbody hnext hrest
  exact ⟨u, hleads, hurest, h.behind hbehind⟩

end Body

/-! ## Openings -/

section Openings

variable (hprose : s.modes.top = .paragraphText) (hpending : s.pending = {})

include hpending in
/-- A formula on lines of its own that counts as begun. -/
theorem inFormula_enterDisplayMath {n : Nat} (hn : s.rest.take n ≠ []) :
    InFormula s (settle ((begun s).enterDisplayMath.markup n)) .displayMath false none := by
  have htake : (begun s).enterDisplayMath.rest.take n ≠ [] := hn
  have hagrees : Agrees s (begun s).enterDisplayMath := ⟨rfl, rfl, rfl⟩
  have hpending' : (begun s).enterDisplayMath.pending = {} := hpending
  rw [settle, if_neg (by rw [trivial_markup]; exact Bool.false_ne_true)]
  refine ⟨(hagrees.markup n).trans ⟨rfl, rfl, rfl⟩, modes_markup _ n, ?_, ?_, rfl⟩
  -- what was pending is empty, so that nothing of it is kept
  all_goals
    rw [markup_eq _ n htake]
    dsimp only
    rw [hpending']
    rfl

include hprose hpending

/-- Two dollar signs in prose open a formula on lines of its own. -/
theorem step_dollars_opening (hrest : s.rest = '$' :: '$' :: cs) :
    InFormula s (x.step s) .displayMath false none ∧ (x.step s).rest = cs := by
  have hfree : (begun s).mode.isOpaque = false := by rw [mode_begun, hprose]; rfl
  have hdollar : x.construct (begun s) '$' = x.dollar (begun s) := construct_of_free hfree '$'
  -- two dollars are tested before one
  have hdouble : Text.startsWith (begun s).rest ['$', '$'] = true := by
    rw [rest_begun, hrest]
    exact Text.startsWith_iff.mpr ⟨cs, rfl⟩
  have houtside : ¬ (begun s).mode = .displayMath := by rw [mode_begun, hprose]; decide
  rw [step_eq_settle hrest, hdollar, dollar, if_pos hdouble, if_neg houtside]
  refine ⟨inFormula_enterDisplayMath hpending (by simp [hrest]), ?_⟩
  rw [rest_settle, rest_markup]
  show s.rest.drop 2 = cs
  rw [hrest]
  rfl

/-- A bracket with a backslash, and no star after it. -/
theorem step_bracket_opening (hstar : cs.head? ≠ some '*') (hrest : s.rest = '\\' :: '[' :: cs) :
    InFormula s (x.step s) .displayMath false none ∧ (x.step s).rest = cs := by
  -- a star after it would belong to the control sequence
  have hcontrol : Token.control? s.rest = some 2 := by
    rw [hrest]
    exact Token.control?_symbol rfl hstar
  have htoken : Control.ofToken ['\\', '['] = .displayMath := rfl
  have htake : s.rest.take 2 = ['\\', '['] := by
    rw [hrest]
    rfl
  have hopen : x.control (begun s) ['\\', '['] = (begun s).enterDisplayMath.markup 2 := by
    unfold control
    rw [htoken]
    rfl
  rw [step_control (by rw [hprose]; rfl) hcontrol, htake, hopen]
  refine ⟨inFormula_enterDisplayMath hpending (by simp [hrest]), ?_⟩
  rw [rest_settle, rest_markup]
  show s.rest.drop 2 = cs
  rw [hrest]
  rfl

omit hprose hpending in
/-- Arguments that are swallowed leave a formula as it is. -/
theorem InFormula.swallow (h : InFormula s t mode empty none) (lengths : List Nat) :
    InFormula s (lengths.foldl State.markup t) mode empty none ∧
      (lengths.foldl State.markup t).trivial = t.trivial ∧
      (lengths.foldl State.markup t).rest = t.rest.drop lengths.sum := by
  induction lengths generalizing t with
  | nil => exact ⟨h, rfl, rfl⟩
  | cons n lengths ih =>
    obtain ⟨hin, htrivial, hrest⟩ := ih (h.markup n)
    rw [List.foldl_cons, htrivial, hrest, trivial_markup, rest_markup, List.drop_drop,
      List.sum_cons]
    exact ⟨hin, rfl, rfl⟩

/-- The mode in which the body of a math environment is read. -/
def formulaMode (name : List Char) : Mode :=
  if String.ofList name = inlineMathEnvironment then .inlineMath else .displayMath

/-- The state between the control sequence that opens a math environment and its name. -/
def enterFormula (s : State) (name : List Char) : State :=
  { s with
    modes := s.modes.push (formulaMode name)
    pending := { s.pending with kept := true }
    formula := .entered
    trivial := true }

omit hprose hpending in
/-- The opening of a formula takes its tag and all arguments that follow it. -/
theorem openEnvironment_of_math {tag : EnvironmentTag} (hmath : tag.isMath = true) :
    x.openEnvironment s tag = ((enterFormula (s.keepPending.markup tag.control) tag.name).markup
      tag.group).swallowArguments := by
  unfold openEnvironment
  dsimp only
  rw [if_pos hmath, finishTag, enterFormula, formulaMode]
  split <;> rfl

/-- A math environment.  The arguments that follow directly are passed over with its opening, and
    the formula counts as empty. -/
theorem step_environment_opening {name : List Char} (hname : '}' ∉ name)
    (hmath : String.ofList name ∈ mathEnvironments)
    (hrest : s.rest = "\\begin".toList ++ '{' :: (name ++ '}' :: cs)) :
    InFormula s (x.step s) (formulaMode name) true none ∧
      (x.step s).rest = cs.drop (argumentRun cs).sum := by
  have hisMath : EnvironmentTag.isMath ⟨6, name.length + 2, name, .braced name⟩ = true := by
    simpa [EnvironmentTag.isMath] using hmath
  -- the states before and after the name in braces
  obtain ⟨entered, hentered⟩ :
      ∃ entered, entered = enterFormula ((begun s).keepPending.markup 6) name := ⟨_, rfl⟩
  have hrest' : entered.rest = '{' :: (name ++ '}' :: cs) := by
    rw [hentered]
    show ((begun s).keepPending.markup 6).rest = _
    rw [rest_markup]
    show s.rest.drop 6 = _
    rw [hrest]
    rfl
  have hafter : (entered.markup (name.length + 2)).rest = cs := by
    rw [rest_markup, hrest']
    simp
  have hstep : x.step s = settle (entered.markup (name.length + 2)).swallowArguments := by
    rw [step_opening (by rw [hprose]; rfl) hname hrest, hentered]
    exact congrArg settle (openEnvironment_of_math hisMath)
  have hin : InFormula s (entered.markup (name.length + 2)) (formulaMode name) true none := by
    have hpending' : ((begun s).keepPending.markup 6).pending = {} := by
      rw [markup_eq _ 6 (by show s.rest.take 6 ≠ []; simp [hrest])]
      show Pending.afterMarkup { s.pending with kept := true } = {}
      rw [hpending]
      rfl
    have hpending'' : (entered.markup (name.length + 2)).pending = {} := by
      rw [markup_eq _ _ (by simp [hrest']), hentered]
      show Pending.afterMarkup { ((begun s).keepPending.markup 6).pending with kept := true } = {}
      rw [hpending']
      rfl
    have hagrees : Agrees s (begun s).keepPending := ⟨rfl, rfl, rfl⟩
    have hagrees' : Agrees s entered := by
      rw [hentered]
      exact (hagrees.markup 6).trans ⟨rfl, rfl, rfl⟩
    refine ⟨hagrees'.markup _, ?_, by rw [hpending''], by rw [hpending''], ?_⟩
    · rw [modes_markup, hentered]
      exact congrArg (ModeStack.push · _) (modes_markup _ 6)
    · rw [formula_markup, hentered]
      rfl
  obtain ⟨hswallow, htrivial, hdrop⟩ := InFormula.swallow hin
    (argumentRun (entered.markup (name.length + 2)).rest)
  have htrivial' : (entered.markup (name.length + 2)).swallowArguments.trivial = true := by
    rw [swallowArguments, htrivial, trivial_markup, hentered]
    rfl
  rw [hstep, settle, if_pos htrivial', swallowArguments, hdrop, hafter]
  rw [hafter] at hswallow
  exact ⟨hswallow, rfl⟩

end Openings

/-! ## Closings -/

/-- The punctuation that waits, as text. -/
theorem pendingPunctuation_eq (t : State) :
    t.pendingPunctuation = t.pending.punctuation.elim "" Char.toString := by
  unfold pendingPunctuation
  cases t.pending.punctuation <;> rfl

/-- The text that stands for the formula that is closed in `t`. -/
def substitute (x : Extractor) (t : State) : String :=
  (begun t).pop.standIn x.options.language .singular

/-- A step at a delimiter that closes a formula puts the text in its place that stands for it. -/
theorem step_of_replace {closed : State} {n : Nat} (hn : t.rest.take n ≠ [])
    (hstep : x.step t = settle (closed.replace n x.options.language .singular))
    (hclosed : Silent t closed)
    (hstandIn : closed.standIn x.options.language .singular = x.substitute t) :
    (x.step t).rest = t.rest.drop n ∧
      (x.step t).builder.plain = t.builder.plain ++ x.substitute t := by
  have htake : closed.afterStandIn.rest.take n ≠ [] := by
    show closed.rest.take n ≠ []
    rwa [hclosed.rest_eq]
  rw [hstep, rest_settle, rest_replace, hclosed.rest_eq, builder_settle, State.replace,
    plain_markupAs _ n _ htake, hstandIn]
  exact ⟨rfl, congrArg (·.plain ++ _) hclosed.builder_eq⟩

/-- Two dollar signs in the formula close it and put what stands in for it. -/
theorem step_dollars_closing (htop : t.modes.top = .displayMath)
    (hrest : t.rest = '$' :: '$' :: cs) :
    (x.step t).rest = cs ∧ (x.step t).builder.plain = t.builder.plain ++ x.substitute t := by
  have hfree : (begun t).mode.isOpaque = false := by rw [mode_begun, htop]; rfl
  have hdollar : x.construct (begun t) '$' = x.dollar (begun t) := construct_of_free hfree '$'
  have hdouble : Text.startsWith (begun t).rest ['$', '$'] = true := by
    rw [rest_begun, hrest]
    exact Text.startsWith_iff.mpr ⟨cs, rfl⟩
  have hinside : (begun t).mode = .displayMath := by rw [mode_begun, htop]
  have hstep : x.step t = settle ((begun t).pop.replace 2 x.options.language .singular) := by
    rw [step_eq_settle hrest, hdollar, dollar, if_pos hdouble, if_pos hinside]
  obtain ⟨hdrop, hplain⟩ := step_of_replace (by simp [hrest]) hstep rfl rfl
  exact ⟨by rw [hdrop, hrest]; rfl, hplain⟩

/-- A closing bracket with a backslash closes the formula in this way if no star follows it. -/
theorem step_bracket_closing (htop : t.modes.top.isOpaque = false) (hstar : cs.head? ≠ some '*')
    (hrest : t.rest = '\\' :: ']' :: cs) :
    (x.step t).rest = cs ∧ (x.step t).builder.plain = t.builder.plain ++ x.substitute t := by
  have hcontrol : Token.control? t.rest = some 2 := by
    rw [hrest]
    exact Token.control?_symbol rfl hstar
  -- the command is the symbol alone, so that it closes a formula
  have htoken : Control.ofToken ['\\', ']'] = .mathEnd := rfl
  have htake : t.rest.take 2 = ['\\', ']'] := by
    rw [hrest]
    rfl
  have hstep : x.step t = settle ((begun t).pop.replace 2 x.options.language .singular) := by
    rw [step_control htop hcontrol, htake, control, htoken]
    rfl
  obtain ⟨hdrop, hplain⟩ := step_of_replace (by simp [hrest]) hstep rfl rfl
  exact ⟨by rw [hdrop, hrest]; rfl, hplain⟩

/-- The closing tag of an environment closes the formula in this way. -/
theorem step_environment_closing (htop : t.modes.top.isOpaque = false) {name : List Char}
    (hname : '}' ∉ name) (hmath : String.ofList name ∈ mathEnvironments)
    (hrest : t.rest = "\\end".toList ++ '{' :: (name ++ '}' :: cs)) :
    (x.step t).rest = cs ∧ (x.step t).builder.plain = t.builder.plain ++ x.substitute t := by
  have hcontrol : Token.control? t.rest = some "\\end".toList.length := by
    rw [hrest]
    exact Token.control?_word "end".toList (by decide) (by decide) (by simp; decide)
  have htake : t.rest.take "\\end".toList.length = "\\end".toList := by
    rw [hrest, List.take_left]
  have htoken : Control.ofToken "\\end".toList = .closing none := rfl
  -- the whole tag is taken, with the name in braces
  have htag : EnvironmentTag.read (begun t).rest "\\end".toList.length none =
      ⟨4, name.length + 2, name, .braced name⟩ := by
    rw [rest_begun, hrest]
    exact EnvironmentTag.read_braced "\\end".toList cs hname
  have hisMath : EnvironmentTag.isMath ⟨4, name.length + 2, name, .braced name⟩ = true := by
    simpa [EnvironmentTag.isMath] using hmath
  have hstep : x.step t = settle ((begun t).keepPending.pop.markTrivial.replace
      (4 + (name.length + 2)) x.options.language .singular) := by
    rw [step_control htop hcontrol, htake, control, htoken]
    dsimp only
    rw [htag, closeEnvironment, if_pos hisMath]
  obtain ⟨hdrop, hplain⟩ :=
    step_of_replace (t.take_ne_nil (by omega) (by simp [hrest])) hstep rfl rfl
  exact ⟨by rw [hdrop, hrest]; exact drop_tag "\\end".toList name cs, hplain⟩

/-- In running prose a formula on lines of its own is set off on both sides, and one that has shown
    nothing on one side only. -/
theorem InFormula.substitute_eq (h : InFormula s t .displayMath empty punctuation)
    (hprose : s.modes.top = .paragraphText) :
    x.substitute t = (if s.trailing.space then "" else " ") ++ if empty then "" else
      Placeholder.singular.word x.options.language s.placeholders false ++
        punctuation.elim "" Char.toString ++ " " := by
  have hmode : (begun t).pop.mode = .displayMath := h.top_eq
  have hempty : (begun t).pop.formula.empty = empty := h.empty_eq
  -- what is around the formula is prose, so that the placeholder is shown there
  have houter : (begun t).pop.modes.top = .paragraphText := by
    show t.modes.pop.top = _
    rw [h.modes_eq, ModeStack.pop_push, hprose]
  have hpunctuation : (begun t).pop.pendingPunctuation = punctuation.elim "" Char.toString := by
    rw [pendingPunctuation_eq, ← h.punctuation_eq]
    rfl
  have htrailing : (begun t).pop.trailing = s.trailing := h.agrees.trailing_eq
  have hword : (begun t).pop.word x.options.language .singular false =
      Placeholder.singular.word x.options.language s.placeholders false := by
    show Placeholder.word _ _ t.placeholders _ = _
    rw [h.agrees.placeholders_eq]
  simp only [substitute, standIn, hmode, hempty, houter, hpunctuation, htrailing, hword]
  cases empty
  · simp [Mode.isText, String.append_assoc]
  · simp [Mode.isText]

end Extractor

end ProseLens
