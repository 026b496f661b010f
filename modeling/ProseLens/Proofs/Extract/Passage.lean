import ProseLens.Proofs.Extract.Dispatch

/-!
# What a construct does to the modes

For the modes it matters neither what a construct is read as nor what is remembered besides them.
So a stretch of an extraction is described by the modes and the unread text at its ends (`Passes`),
and there is one such passage for each construct.

Blanks and comments are passed over in longer or shorter stretches, depending on what comes after
them.  `Token.visible` is what is left of a text without those at its beginning.

## Key results

- `Passes.of_construct`, `Passes.of_control`: passages are what the constructs do
- `passes_visible`: blanks and comments are passed over
-/

namespace ProseLens

namespace Token

/-- What is left of a text without the blanks and comments that it begins with. -/
def visible : List Char → List Char
  | [] => []
  | c :: cs =>
    if isBlank c then visible cs
    else if c = '%' then visible (cs.dropWhile fun c => !isLineEnd c)
    else c :: cs
termination_by cs => cs.length
decreasing_by
  · simp
  · have hle : (cs.dropWhile fun c => !isLineEnd c).length ≤ cs.length :=
      (List.dropWhile_suffix _).length_le
    simp only [List.length_cons]
    omega

@[simp] theorem visible_nil : visible [] = [] := by
  rw [visible]

/-- Blanks are not visible. -/
theorem visible_blank {c : Char} (hc : isBlank c = true) (cs : List Char) :
    visible (c :: cs) = visible cs := by
  rw [visible, if_pos hc]

/-- A comment is not visible up to the end of its line. -/
theorem visible_comment (cs : List Char) :
    visible ('%' :: cs) = visible (cs.dropWhile fun c => !isLineEnd c) := by
  rw [visible, if_neg (by decide), if_pos rfl]

/-- All other characters are visible. -/
theorem visible_cons {c : Char} (hc : isBlank c = false) (hcomment : c ≠ '%') (cs : List Char) :
    visible (c :: cs) = c :: cs := by
  rw [visible, if_neg (by simp [hc]), if_neg hcomment]

/-- A text that begins with something visible is visible. -/
theorem visible_append {front : List Char}
    (h : front.head?.any (fun c => !isBlank c && c != '%') = true) (cs : List Char) :
    visible (front ++ cs) = front ++ cs := by
  cases front with
  | nil => simp at h
  | cons c front =>
    have hc : isBlank c = false ∧ c ≠ '%' := by simpa using h
    exact visible_cons hc.1 hc.2 (front ++ cs)

/-- Blanks in front do not matter to what is visible. -/
theorem visible_append_of_blank {gap : List Char} (hgap : gap.all isBlank = true)
    (cs : List Char) : visible (gap ++ cs) = visible cs := by
  induction gap with
  | nil => rfl
  | cons c gap ih =>
    rw [List.all_cons, Bool.and_eq_true] at hgap
    rw [List.cons_append, visible_blank hgap.1, ih hgap.2]

/-- Dropping blanks in front does not matter to what is visible. -/
theorem visible_dropWhile_isBlank (cs : List Char) :
    visible (cs.dropWhile isBlank) = visible cs := by
  induction cs with
  | nil => rfl
  | cons c cs ih =>
    by_cases hc : isBlank c = true
    · rw [List.dropWhile_cons_of_pos hc, ih, visible_blank hc]
    · rw [List.dropWhile_cons_of_neg hc]

/-- Behind a comment the same is visible as in front of it. -/
theorem visible_drop_comment? {cs : List Char} {n : Nat} (h : comment? cs = some n) :
    visible (cs.drop n) = visible cs := by
  unfold comment? at h
  split at h
  · next cs =>
    obtain rfl := Option.some.inj h
    -- the percent sign, its line, and the blanks after that
    have hdrop (line blanks : Nat) :
        ('%' :: cs).drop (1 + line + blanks) = (cs.drop line).drop blanks := by
      rw [List.drop_drop, Nat.add_assoc, Nat.add_comm 1]
      rfl
    rw [hdrop, drop_length_takeWhile, drop_length_takeWhile, visible_dropWhile_isBlank,
      visible_comment]
  · cases h

/-- Behind a run of blanks the same is visible as in front of it. -/
theorem visible_drop_blanks? {cs : List Char} {n : Nat} (h : blanks? cs = some n) :
    visible (cs.drop n) = visible cs := by
  simp only [blanks?] at h
  split at h
  · cases h
  · obtain rfl := Option.some.inj h
    rw [← List.drop_drop, drop_length_takeWhile, ← visible_dropWhile_isBlank cs]
    -- the comment that follows the run, if there is one, is passed over as well
    unfold commentLength
    cases hcomment : comment? (cs.dropWhile isBlank) with
    | none => rfl
    | some n => exact visible_drop_comment? hcomment

end Token

namespace Extractor

open Extract State

/-- Wherever `cs` is unread in the modes `modes`, the extraction comes to where `cs'` is unread in
    the modes `modes'`. -/
def Passes (x : Extractor) (modes : ModeStack) (cs : List Char) (modes' : ModeStack)
    (cs' : List Char) : Prop :=
  ∀ s : State, s.modes = modes → s.rest = cs →
    ∃ t, x.Leads s t ∧ t.modes = modes' ∧ t.rest = cs'

variable {x : Extractor} {modes modes' modes'' : ModeStack} {cs cs' cs'' : List Char}

/-- Nothing is passed by no step. -/
theorem Passes.refl (modes : ModeStack) (cs : List Char) : x.Passes modes cs modes cs :=
  fun s hmodes hrest => ⟨s, .refl s, hmodes, hrest⟩

/-- Texts are passed one after the other. -/
theorem Passes.trans (h : x.Passes modes cs modes' cs') (h' : x.Passes modes' cs' modes'' cs'') :
    x.Passes modes cs modes'' cs'' := by
  intro s hmodes hrest
  obtain ⟨t, hleads, htmodes, htrest⟩ := h s hmodes hrest
  obtain ⟨u, hleads', humodes, hurest⟩ := h' t htmodes htrest
  exact ⟨u, hleads.trans hleads', humodes, hurest⟩

/-- A passage is what the construct at the reading position does, unless that is a lone
    backslash. -/
theorem Passes.of_construct {c : Char} (hlone : c = '\\' → cs ≠ [])
    (h : ∀ s : State, s.modes = modes → s.mode = modes.top → s.rest = c :: cs →
      (x.construct s c).modes = modes' ∧ (x.construct s c).rest = cs') :
    x.Passes modes (c :: cs) modes' cs' := by
  intro s hmodes hrest
  -- only a backslash that is all that is left gets stuck
  have hstuck : ¬ s.Stuck := by
    rintro ⟨hlast, -⟩
    rw [hrest] at hlast
    obtain ⟨hc, hcs⟩ := List.cons.inj hlast
    exact hlone hc hcs
  obtain ⟨hmodes', hrest'⟩ := h (begun s) hmodes (by rw [mode_begun, hmodes]) hrest
  refine ⟨x.step s, leads_step (by simp [hrest]) hstuck, ?_, ?_⟩
  · rw [step_eq_settle hrest, modes_settle, hmodes']
  · rw [step_eq_settle hrest, rest_settle, hrest']

/-- A passage is what the control sequence at the reading position does. -/
theorem Passes.of_control {token : List Char} (hfree : modes.top.isOpaque = false)
    (hcontrol : Token.control? (token ++ cs) = some token.length)
    (h : ∀ s : State, s.modes = modes → s.mode = modes.top → s.rest = token ++ cs →
      (x.control s token).modes = modes' ∧ (x.control s token).rest = cs') :
    x.Passes modes (token ++ cs) modes' cs' := by
  -- a control sequence has at least one character behind its backslash
  obtain ⟨c, rest, hsplit⟩ : ∃ c rest, token ++ cs = '\\' :: c :: rest := by
    unfold Token.control? at hcontrol
    split at hcontrol
    · next c rest heq => exact ⟨c, rest, heq⟩
    · cases hcontrol
  rw [hsplit]
  refine .of_construct (by simp) ?_
  intro s hmodes hmode hrest
  rw [← hsplit] at hrest
  have hcontrol' : Token.control? s.rest = some token.length := by rw [hrest, hcontrol]
  rw [construct_control (by rw [hmode]; exact hfree) hcontrol', hrest, List.take_left]
  exact h s hmodes hmode hrest

/-! ## Blanks and comments -/

/-- A run of blanks is passed as a whole. -/
theorem passes_blanks (hfree : modes.top.isOpaque = false) {c : Char} (hc : Token.isBlank c = true)
    {n : Nat} (hn : Token.blanks? (c :: cs) = some n) :
    x.Passes modes (c :: cs) modes ((c :: cs).drop n) := by
  refine .of_construct ?_ ?_
  · rintro rfl
    exact absurd hc (by decide)
  · intro s hmodes hmode hrest
    have hsingle : (c == '~' || c == '&') = false := by
      have hcases : c = ' ' ∨ c = '\t' ∨ c = '\n' ∨ c = '\r' := by
        simpa [Token.isBlank, Token.isLineEnd, or_assoc] using hc
      rcases hcases with rfl | rfl | rfl | rfl <;> rfl
    rw [construct_blank (by rw [hmode]; exact hfree) hc, blank]
    simp only [hsingle, hrest, hn, Bool.false_eq_true, if_false, Option.getD_some]
    -- read as a space or not, the blanks are gone
    split <;> simp [keepPending, markTrivial, hmodes, hrest]

/-- A tie or an alignment mark. -/
theorem passes_mark (hfree : modes.top.isOpaque = false) {c : Char} (hc : c = '~' ∨ c = '&') :
    x.Passes modes (c :: cs) modes cs := by
  have hsingle : (c == '~' || c == '&') = true := by simpa using hc
  have hconstruct {s : State} (h : s.mode.isOpaque = false) : x.construct s c = blank s c := by
    rcases hc with rfl | rfl <;> exact construct_of_free h _
  apply Passes.of_construct
  · rintro rfl
    exact absurd hc (by decide)
  · intro s hmodes hmode hrest
    rw [hconstruct (by rw [hmode]; exact hfree), blank]
    simp only [hsingle, if_true]
    -- shown in prose and markup elsewhere, the mark is one character
    split <;> simp [keepPending, markTrivial, awaitSpace, hmodes, hrest]

/-- A comment is passed with the blanks after it. -/
theorem passes_comment (hfree : modes.top.isOpaque = false) {n : Nat}
    (hn : Token.comment? ('%' :: cs) = some n) :
    x.Passes modes ('%' :: cs) modes (('%' :: cs).drop n) := by
  refine .of_construct (fun h => absurd h (by decide)) ?_
  intro s hmodes hmode hrest
  have hpercent : x.construct s '%' = percent s :=
    construct_of_free (by rw [hmode]; exact hfree) '%'
  rw [hpercent, percent]
  simp [keepPending, markTrivial, hmodes, hrest, hn]

/-- Blanks and comments are passed over. -/
theorem passes_visible (hfree : modes.top.isOpaque = false) (cs : List Char) :
    x.Passes modes cs modes (Token.visible cs) := by
  -- by induction on the length, since a comment is passed over together with blanks after it
  induction hlength : cs.length using Nat.strongRecOn generalizing cs with
  | ind length ih =>
    cases cs with
    | nil =>
      rw [Token.visible_nil]
      exact .refl modes []
    | cons c cs =>
      have hshorter {n : Nat} (hn : 0 < n) : ((c :: cs).drop n).length < length := by
        simp only [List.length_drop, List.length_cons] at hlength ⊢
        omega
      by_cases hblank : Token.isBlank c = true
      · obtain ⟨n, hn⟩ : ∃ n, Token.blanks? (c :: cs) = some n := by
          simp [Token.blanks?, hblank]
        have hrest := ih _ (hshorter (Token.blanks?_pos hn)) _ rfl
        rw [Token.visible_drop_blanks? hn] at hrest
        exact (passes_blanks hfree hblank hn).trans hrest
      · by_cases hcomment : c = '%'
        · subst hcomment
          obtain ⟨n, hn⟩ : ∃ n, Token.comment? ('%' :: cs) = some n := ⟨_, rfl⟩
          have hrest := ih _ (hshorter (Token.comment?_pos hn)) _ rfl
          rw [Token.visible_drop_comment? hn] at hrest
          exact (passes_comment hfree hn).trans hrest
        · rw [Token.visible_cons (by simpa using hblank) hcomment]
          exact .refl modes _

/-! ## Characters, braces and dollar signs -/

/-- Characters that mean nothing but themselves, whatever comes after them. -/
def isPlain (c : Char) : Bool :=
  !(Text.specials ++ ['\x60', '\x27', '\x22', '-', '[', '<']).contains c

/-- Letters are plain. -/
theorem isPlain_of_isAlpha {c : Char} (hc : c.isAlpha = true) : isPlain c = true := by
  have hnone : (Text.specials ++ ['\x60', '\x27', '\x22', '-', '[', '<']).all
      (fun c => !c.isAlpha) = true := by decide
  rw [isPlain, Bool.not_eq_true', List.contains_eq_mem, decide_eq_false_iff_not]
  exact Text.not_mem_of_class hnone hc

/-- A plain character is passed alone. -/
theorem passes_plain (hfree : modes.top.isOpaque = false) {c : Char} (hc : isPlain c = true) :
    x.Passes modes (c :: cs) modes cs := by
  simp only [isPlain, List.contains_eq_mem, Bool.not_eq_true', decide_eq_false_iff_not,
    List.mem_append, not_or] at hc
  obtain ⟨hspecial, hother⟩ := hc
  have hdistinct : c ≠ '-' ∧ c ≠ '[' ∧ c ≠ '<' := by
    refine ⟨?_, ?_, ?_⟩ <;> rintro rfl <;> exact hother (by decide)
  obtain ⟨hhyphen, hbracket, hangle⟩ := hdistinct
  refine .of_construct ?_ ?_
  · rintro rfl
    exact absurd hspecial (by decide)
  · intro s hmodes hmode hrest
    -- none of the named cases applies to the character
    have hquote : c ∉ Text.specials ++ ['\x60', '\x27', '\x22'] := by
      rw [List.mem_append, not_or]
      refine ⟨hspecial, fun hmem => hother ?_⟩
      exact List.mem_append_left ['-', '[', '<'] hmem
    have hplain : x.otherCharacter s c = plainCharacter s c := by
      simp [otherCharacter, hhyphen, hbracket, hangle]
    rw [construct_other (by rw [hmode]; exact hfree) hquote, hplain, plainCharacter]
    split
    · simp [hmodes, hrest]
    · simp [hmodes, hrest]

/-- A word of plain characters is passed character by character. -/
theorem passes_word (hfree : modes.top.isOpaque = false) {word : List Char}
    (hword : word.all isPlain = true) : x.Passes modes (word ++ cs) modes cs := by
  induction word with
  | nil => exact .refl modes cs
  | cons c word ih =>
    rw [List.all_cons, Bool.and_eq_true] at hword
    exact (passes_plain hfree hword.1).trans (ih hword.2)

/-- An opening brace of a group enters the mode that it stands in once more. -/
theorem passes_openBrace (hfree : modes.top.isOpaque = false)
    (hdimension : Token.dimension? '{' '}' ('{' :: cs) = none)
    (haccent : Token.accentGroup? ('{' :: cs) = none) :
    x.Passes modes ('{' :: cs) (modes.push modes.top) cs := by
  refine .of_construct (fun h => absurd h (by decide)) ?_
  intro s hmodes hmode hrest
  have hbrace : x.construct s '{' = openBrace s :=
    construct_of_free (by rw [hmode]; exact hfree) '{'
  rw [hbrace, openBrace, hrest, hdimension]
  dsimp only
  rw [haccent]
  simp [push, hmodes, hmode, hrest]

/-- A length in braces is passed as a whole. -/
theorem passes_dimension (hfree : modes.top.isOpaque = false) {n : Nat}
    (hdimension : Token.dimension? '{' '}' ('{' :: cs) = some n) :
    x.Passes modes ('{' :: cs) modes (('{' :: cs).drop n) := by
  refine .of_construct (fun h => absurd h (by decide)) ?_
  intro s hmodes hmode hrest
  have hbrace : x.construct s '{' = openBrace s :=
    construct_of_free (by rw [hmode]; exact hfree) '{'
  rw [hbrace, openBrace, hrest, hdimension]
  simp [hmodes, hrest]

/-- A closing brace leaves a mode. -/
theorem passes_closeBrace (hfree : modes.top.isOpaque = false) :
    x.Passes modes ('}' :: cs) modes.pop cs := by
  refine .of_construct (fun h => absurd h (by decide)) ?_
  intro s hmodes hmode hrest
  have hbrace : x.construct s '}' = closeBrace s :=
    construct_of_free (by rw [hmode]; exact hfree) '}'
  rw [hbrace, closeBrace]
  simp [pop, hmodes, hrest]

/-- One dollar sign alone does not begin with two. -/
theorem startsWith_dollars (h : cs.head? ≠ some '$') :
    Text.startsWith ('$' :: cs) ['$', '$'] = false := by
  cases cs with
  | nil => rfl
  | cons c cs =>
    have hc : '$' ≠ c := by
      rintro rfl
      exact h rfl
    simp [Text.startsWith, Text.stripFront?, hc]

/-- A dollar sign closes a formula within a line, and opens one anywhere else. -/
theorem passes_dollar (hfree : modes.top.isOpaque = false) (hsingle : cs.head? ≠ some '$') :
    x.Passes modes ('$' :: cs)
      (if modes.top = .inlineMath then modes.pop else modes.push .inlineMath) cs := by
  refine .of_construct (fun h => absurd h (by decide)) ?_
  intro s hmodes hmode hrest
  have hdollar : x.construct s '$' = x.dollar s :=
    construct_of_free (by rw [hmode]; exact hfree) '$'
  rw [hdollar, dollar, hrest, startsWith_dollars hsingle, if_neg (by decide), hmode]
  split
  · simp [pop, hmodes, hrest]
  · simp [enterInlineMath, push, hmodes, hrest]

/-- A single dollar sign enters a formula, unless there is one already. -/
theorem passes_dollar_opening (hfree : modes.top.isOpaque = false)
    (houtside : modes.top ≠ .inlineMath) (hsingle : cs.head? ≠ some '$') :
    x.Passes modes ('$' :: cs) (modes.push .inlineMath) cs := by
  have hpushed : (if modes.top = .inlineMath then modes.pop else modes.push .inlineMath) =
      modes.push .inlineMath := if_neg houtside
  rw [← hpushed]
  exact passes_dollar hfree hsingle

/-- A single dollar sign leaves its formula. -/
theorem passes_dollar_closing (hsingle : cs.head? ≠ some '$') :
    x.Passes (modes.push .inlineMath) ('$' :: cs) modes cs :=
  passes_dollar rfl hsingle

/-- Two dollar signs close a formula on lines of its own, and open one anywhere else. -/
theorem passes_dollars (hfree : modes.top.isOpaque = false) :
    x.Passes modes ('$' :: '$' :: cs)
      (if modes.top = .displayMath then modes.pop else modes.push .displayMath) cs := by
  refine .of_construct (fun h => absurd h (by decide)) ?_
  intro s hmodes hmode hrest
  have hdollar : x.construct s '$' = x.dollar s :=
    construct_of_free (by rw [hmode]; exact hfree) '$'
  -- what decides whether the formula is opened or closed is the mode
  have hdouble : Text.startsWith ('$' :: '$' :: cs) ['$', '$'] = true :=
    Text.startsWith_iff.mpr ⟨cs, rfl⟩
  rw [hdollar, dollar, hrest, hdouble, if_pos rfl, hmode]
  split
  · simp [pop, hmodes, hrest]
  · simp [enterDisplayMath, push, hmodes, hrest]

/-- Two dollar signs enter a formula on lines of its own, unless there is one already. -/
theorem passes_dollars_opening (hfree : modes.top.isOpaque = false)
    (houtside : modes.top ≠ .displayMath) :
    x.Passes modes ('$' :: '$' :: cs) (modes.push .displayMath) cs := by
  have hpushed : (if modes.top = .displayMath then modes.pop else modes.push .displayMath) =
      modes.push .displayMath := if_neg houtside
  rw [← hpushed]
  exact passes_dollars hfree

/-- Two dollar signs leave their formula. -/
theorem passes_dollars_closing : x.Passes (modes.push .displayMath) ('$' :: '$' :: cs) modes cs :=
  passes_dollars rfl

/-! ## Control sequences -/

section Controls

variable {token : List Char} (hfree : modes.top.isOpaque = false)
  (hcontrol : Token.control? (token ++ cs) = some token.length)

include hfree hcontrol

/-- A control sequence that opens a formula on lines of its own enters its mode. -/
theorem passes_displayMath (htoken : Control.ofToken token = .displayMath) :
    x.Passes modes (token ++ cs) (modes.push .displayMath) cs := by
  refine .of_control hfree hcontrol ?_
  intro s hmodes hmode hrest
  unfold control
  rw [htoken]
  simp [enterDisplayMath, push, hmodes, hrest]

/-- A control sequence that opens a formula within a line enters its mode. -/
theorem passes_inlineMath (htoken : Control.ofToken token = .inlineMath) :
    x.Passes modes (token ++ cs) (modes.push .inlineMath) cs := by
  refine .of_control hfree hcontrol ?_
  intro s hmodes hmode hrest
  unfold control
  rw [htoken]
  simp [enterInlineMath, push, hmodes, hrest]

/-- A control sequence that closes a formula leaves a mode. -/
theorem passes_mathEnd (htoken : Control.ofToken token = .mathEnd) :
    x.Passes modes (token ++ cs) modes.pop cs := by
  refine .of_control hfree hcontrol ?_
  intro s hmodes hmode hrest
  unfold control
  rw [htoken]
  simp [pop, hmodes, hrest]

/-- A command that the signatures do not know. -/
theorem passes_unknown (htoken : Control.ofToken token = .other)
    (hunknown : x.registry.commands (String.ofList token) = []) :
    x.Passes modes (token ++ cs) modes cs := by
  refine .of_control hfree hcontrol ?_
  intro s hmodes hmode hrest
  unfold control
  rw [htoken]
  simp [command, Signature.Registry.command?, hunknown, Signature.longest?, hmodes, hrest]

/-- A command that a placeholder stands for, with its arguments. -/
theorem passes_placeholder {found : Signature.Match Signature.Command} {p : Placeholder}
    (htoken : Control.ofToken token = .other)
    (hfound : x.registry.command? (String.ofList token) (token ++ cs) = some found)
    (haction : found.signature.action = .placeholder p) :
    x.Passes modes (token ++ cs) modes ((token ++ cs).drop found.length) := by
  refine .of_control hfree hcontrol ?_
  intro s hmodes hmode hrest
  unfold control
  rw [htoken]
  simp only [command, hrest, hfound, haction, modes_replace, rest_replace, hmodes, and_self]

end Controls

/-- The title of a section begins with its brace. -/
theorem passes_title {token : List Char} (hfree : modes.top.isOpaque = false)
    (hcontrol : Token.control? (token ++ '{' :: cs) = some token.length)
    (htoken : Control.ofToken token = .heading) :
    x.Passes modes (token ++ '{' :: cs) (modes.push .heading) cs := by
  refine .of_control hfree hcontrol ?_
  intro s hmodes hmode hrest
  have hrest' : (s.markup token.length).rest = '{' :: cs := by
    rw [rest_markup, hrest, List.drop_left]
  -- there is no short title, since that would begin with a bracket
  have hshort : shortTitle (s.markup token.length) = s.markup token.length := by
    rw [shortTitle, hrest']
    rfl
  unfold control
  rw [htoken]
  dsimp only [heading]
  rw [hshort, title, if_pos (by rw [hrest']; rfl)]
  simp [push, hmodes, hrest]

/-- Prose inside a formula begins with its brace. -/
theorem passes_inlineText {token : List Char} (hfree : modes.top.isOpaque = false)
    (hcontrol : Token.control? (token ++ '{' :: cs) = some token.length)
    (htoken : Control.ofToken token = .inlineText) :
    x.Passes modes (token ++ '{' :: cs) (modes.push .inlineText) cs := by
  refine .of_control hfree hcontrol ?_
  intro s hmodes hmode hrest
  have hbrace : (s.rest.drop token.length).head? = some '{' := by
    rw [hrest, List.drop_left]
    rfl
  have hdrop : s.rest.drop (token.length + 1) = cs := by
    rw [hrest, ← List.drop_drop, List.drop_left]
    rfl
  unfold control
  rw [htoken]
  dsimp only [inlineText]
  rw [if_pos hbrace]
  -- with a placeholder for the formula so far, or without one
  split
  · simp [push, hmodes, hdrop]
  · simp [push, hmodes, hdrop]

/-! ## Environments -/

/-- Where no argument follows, none is swallowed. -/
theorem swallowArguments_of_none {s : State} (h : argumentRun s.rest = []) :
    s.swallowArguments = s := by
  rw [swallowArguments, h]
  rfl

/-- Arguments follow directly or not at all. -/
theorem argumentRun_space (cs : List Char) : argumentRun (' ' :: cs) = [] := by
  rw [argumentRun]
  rfl

section Environments

variable {name : List Char} (hfree : modes.top.isOpaque = false) (hname : '}' ∉ name)

include hfree hname

/-- The opening of an environment does what is done with its tag. -/
theorem Passes.of_opening
    (h : ∀ s : State, s.modes = modes → s.mode = modes.top →
      s.rest = "\\begin".toList ++ '{' :: (name ++ '}' :: cs) →
      (x.openEnvironment s ⟨6, name.length + 2, name, .braced name⟩).modes = modes' ∧
      (x.openEnvironment s ⟨6, name.length + 2, name, .braced name⟩).rest = cs') :
    x.Passes modes ("\\begin".toList ++ '{' :: (name ++ '}' :: cs)) modes' cs' := by
  refine .of_control hfree ?_ ?_
  · exact Token.control?_word "begin".toList (by decide) (by decide) (by simp; decide)
  · intro s hmodes hmode hrest
    have htoken : Control.ofToken "\\begin".toList = .opening none := rfl
    -- the tag is read before anything else is decided
    have htag := EnvironmentTag.read_braced "\\begin".toList cs hname
    unfold control
    rw [htoken]
    dsimp only
    rw [hrest, htag]
    exact h s hmodes hmode hrest

/-- The closing of an environment closes the mode, whether its body was a formula or not. -/
theorem passes_closing :
    x.Passes modes ("\\end".toList ++ '{' :: (name ++ '}' :: cs)) modes.pop cs := by
  refine .of_control hfree ?_ ?_
  · exact Token.control?_word "end".toList (by decide) (by decide) (by simp; decide)
  · intro s hmodes hmode hrest
    have htoken : Control.ofToken "\\end".toList = .closing none := rfl
    have htag := EnvironmentTag.read_braced "\\end".toList cs hname
    -- the tag is taken in one part or in two, and the same is unread behind it
    have hdrop : s.rest.drop (4 + (name.length + 2)) = cs := by
      rw [hrest]
      exact drop_tag "\\end".toList name cs
    unfold control
    rw [htoken]
    dsimp only
    rw [hrest, htag]
    dsimp only [closeEnvironment]
    split
    · simp only [modes_replace, rest_replace, markTrivial, pop, keepPending]
      exact ⟨by rw [hmodes], hdrop⟩
    · simp only [finishTag, modes_markup, rest_markup, markTrivial, pop, keepPending,
        List.drop_drop]
      exact ⟨by rw [hmodes], hdrop⟩

/-- The opening of a formula on lines of its own. -/
theorem passes_openFormula (hmath : mathEnvironments.contains (String.ofList name) = true)
    (hdisplay : String.ofList name ≠ inlineMathEnvironment) (harguments : argumentRun cs = []) :
    x.Passes modes ("\\begin".toList ++ '{' :: (name ++ '}' :: cs)) (modes.push .displayMath)
      cs := by
  refine .of_opening hfree hname ?_
  intro s hmodes hmode hrest
  have hdrop : s.rest.drop (6 + (name.length + 2)) = cs := by
    rw [hrest]
    exact drop_tag "\\begin".toList name cs
  have hisMath : EnvironmentTag.isMath ⟨6, name.length + 2, name, .braced name⟩ = true := hmath
  unfold openEnvironment
  rw [if_pos hisMath]
  dsimp only
  -- no argument follows, so that the opening is the tag
  rw [if_neg hdisplay, swallowArguments_of_none]
  · simp [finishTag, enterDisplayMath, push, markTrivial, keepPending, hmodes, hdrop]
  · simp [finishTag, enterDisplayMath, push, markTrivial, keepPending, hdrop, harguments]

/-- The opening of an environment that the signatures do not know: its body is read in the current
    mode. -/
theorem passes_openBody (hmath : mathEnvironments.contains (String.ofList name) = false)
    (hunknown : x.registry.environments (Signature.Environment.openingName (String.ofList name)) =
      []) (harguments : argumentRun cs = []) :
    x.Passes modes ("\\begin".toList ++ '{' :: (name ++ '}' :: cs)) (modes.push modes.top)
      cs := by
  refine .of_opening hfree hname ?_
  intro s hmodes hmode hrest
  have hdrop : s.rest.drop (6 + (name.length + 2)) = cs := by
    rw [hrest]
    exact drop_tag "\\begin".toList name cs
  have hisMath : EnvironmentTag.isMath ⟨6, name.length + 2, name, .braced name⟩ ≠ true := by
    simpa [EnvironmentTag.isMath] using hmath
  have hopening : String.ofList (s.keepPending.rest.take (6 + (name.length + 2))) =
      Signature.Environment.openingName (String.ofList name) := by
    have hrest' : s.keepPending.rest = "\\begin".toList ++ '{' :: (name ++ '}' :: cs) := hrest
    rw [hrest']
    exact ofList_take_opening name cs
  -- no signature is filed under the opening, so that its mode goes on
  have hnone : x.registry.environment? (String.ofList (s.keepPending.rest.take
      (6 + (name.length + 2)))) s.keepPending.rest = none := by
    rw [hopening, Signature.Registry.environment?, hunknown]
    rfl
  unfold openEnvironment openBody
  rw [if_neg hisMath]
  dsimp only
  rw [hnone]
  dsimp only
  rw [swallowArguments_of_none]
  · simp [finishTag, push, markTrivial, keepPending, hmodes, hmode, hdrop]
  · simp [finishTag, push, markTrivial, keepPending, hdrop, harguments]

end Environments

end Extractor

end ProseLens
