import ProseLens.Proofs.Extract.Passage

/-!
# Where a formula within a line ends

A formula within a line stands between dollar signs or between parentheses with backslashes.  If its
body is simple, so that nothing in it opens, closes or hides anything, the extraction goes through
the body and comes to the closing delimiter.  Whether this closes the formula depends on the
character after it: a second dollar sign makes it the opening of a formula on lines of its own, and
a star makes the closing parenthesis a command of another name.

## Key results

- `passes_simple`: a simple body is passed over
- `leads_after_dollar_iff`, `leads_after_parenthesis_iff`: what comes after the formula decides
  whether it is closed
-/

namespace ProseLens

/-- Characters that may open, close or hide something, or begin a pair. -/
def Text.delimiters : List Char := ['\\', '{', '}', '$', '%', '[', '<', '\x60', '\x27', '\x22']

/-- A character that does nothing of the kind. -/
def Text.isSimple (c : Char) : Bool := !delimiters.contains c

/-- A character is simple if it is none that a construct in a formula begins with. -/
theorem Text.isSimple_iff {c : Char} : isSimple c = true ↔ c ∉ delimiters := by
  simp [isSimple]

/-- Blanks are all that is not visible of a simple text. -/
theorem Token.visible_append_of_simple {body : List Char} (hbody : body.all Text.isSimple = true)
    {next : List Char} (hnext : next.head?.any (fun c => !isBlank c && c != '%') = true) :
    visible (body ++ next) = body.dropWhile isBlank ++ next := by
  induction body with
  | nil => simpa using visible_append hnext []
  | cons c body ih =>
    rw [List.all_cons, Bool.and_eq_true] at hbody
    -- a blank is passed over; the first other character is no comment and ends the run
    by_cases hblank : isBlank c = true
    · rw [List.cons_append, visible_blank hblank, ih hbody.2, List.dropWhile_cons_of_pos hblank]
    · have hcomment : c ≠ '%' := by
        rintro rfl
        exact absurd hbody.1 (by decide)
      rw [List.cons_append, visible_cons (by simpa using hblank) hcomment,
        List.dropWhile_cons_of_neg hblank, List.cons_append]

namespace Extractor

open Extract State

variable {x : Extractor} {modes : ModeStack} {cs body rest : List Char}

/-- Hyphens make no dashes in a formula. -/
theorem passes_hyphen (hmath : modes.top.isMath = true) : x.Passes modes ('-' :: cs) modes cs := by
  apply Passes.of_construct (fun h => absurd h (by decide))
  intro s hmodes hmode hrest
  have hfree : s.mode.isOpaque = false := by
    rw [hmode]
    exact Mode.isOpaque_of_isMath hmath
  have htext : ¬ s.mode.isText = true := by
    rw [hmode]
    exact Mode.not_isText_of_isMath hmath
  -- a dash is joined with the next only in text
  have hplain : x.otherCharacter s '-' = plainCharacter s '-' := by
    simp [otherCharacter, htext]
  rw [construct_other hfree (by decide), hplain, plainCharacter, if_neg htext]
  simp [hmodes, hrest]

/-- A character of a simple body that is no blank. -/
theorem passes_simple_character (hmath : modes.top.isMath = true) {c : Char}
    (hc : Text.isSimple c = true) (hblank : Token.isBlank c = false) :
    x.Passes modes (c :: cs) modes cs := by
  by_cases hmark : c = '~' ∨ c = '&'
  · exact passes_mark (Mode.isOpaque_of_isMath hmath) hmark
  · by_cases hhyphen : c = '-'
    · rw [hhyphen]
      exact passes_hyphen hmath
    · apply passes_plain (Mode.isOpaque_of_isMath hmath)
      -- what is not plain is not simple, or it is a blank or one of these three
      have hnotPlain : (Text.specials ++ ['\x60', '\x27', '\x22', '-', '[', '<']).all (fun c =>
          !Text.isSimple c || Token.isBlank c || c == '~' || c == '&' || c == '-') = true := by
        decide
      rw [isPlain, Bool.not_eq_true', List.contains_eq_mem, decide_eq_false_iff_not]
      intro hmem
      have hcases := List.all_eq_true.mp hnotPlain c hmem
      rw [not_or] at hmark
      simp [hc, hblank, hmark, hhyphen] at hcases

/-- A simple body is passed over. -/
theorem passes_simple (hmath : modes.top.isMath = true) (hbody : body.all Text.isSimple = true)
    (hnext : cs.head?.any (fun c => !Token.isBlank c && c != '%') = true) :
    x.Passes modes (body ++ cs) modes cs := by
  -- by induction on the length, since blanks are passed over in one go
  induction hlength : body.length using Nat.strongRecOn generalizing body with
  | ind length ih =>
    have hvisible := passes_visible (x := x) (Mode.isOpaque_of_isMath hmath) (body ++ cs)
    rw [Token.visible_append_of_simple hbody hnext] at hvisible
    have hshorter : (body.dropWhile Token.isBlank).length ≤ body.length :=
      (List.dropWhile_suffix _).length_le
    cases hrest : body.dropWhile Token.isBlank with
    | nil =>
      rw [hrest] at hvisible
      exact hvisible
    | cons c more =>
      rw [hrest] at hvisible hshorter
      have hsimple : ∀ d ∈ c :: more, Text.isSimple d = true := by
        intro d hd
        rw [← hrest] at hd
        exact List.all_eq_true.mp hbody d ((List.dropWhile_suffix _).subset hd)
      have hc : Token.isBlank c = false := by
        have hhead := List.head?_dropWhile_not Token.isBlank body
        rwa [hrest] at hhead
      obtain ⟨hfirst, hothers⟩ := List.forall_mem_cons.mp hsimple
      have hmore := ih more.length (by simp only [List.length_cons] at hshorter; omega)
        (List.all_eq_true.mpr hothers) rfl
      exact hvisible.trans ((passes_simple_character hmath hfirst hc).trans hmore)

/-! ## The closing delimiter -/

/-- A command takes at least its name. -/
theorem exists_rest_command (s : State) (token : List Char) :
    ∃ n, token.length ≤ n ∧ (x.command s token).rest = s.rest.drop n := by
  unfold command
  dsimp only
  -- without a signature the token alone is taken, with one what the signature matched, unless its
  -- action is the default
  split
  · exact ⟨token.length, Nat.le_refl _, rest_markup _ _⟩
  · next found hfound =>
    have hlength := Signature.Registry.length_le_of_command?_eq_some hfound
    rw [String.length_ofList] at hlength
    split
    · exact ⟨found.length, hlength, rest_markup _ _⟩
    · exact ⟨found.length, hlength, rest_replace _ _ _ _⟩
    · exact ⟨token.length, Nat.le_refl _, rest_markup _ _⟩

/-- Two dollar signs in a formula within a line are taken together. -/
theorem rest_step_dollars {s : State} (hmode : s.modes.top = .inlineMath)
    (hrest : s.rest = '$' :: '$' :: cs) : (x.step s).rest = cs := by
  have hfree : (begun s).mode.isOpaque = false := by rw [mode_begun, hmode]; rfl
  have hdollar : x.construct (begun s) '$' = x.dollar (begun s) := construct_of_free hfree '$'
  -- the double dollar is tested before the mode is asked, so that it does not close the formula
  have hdouble : Text.startsWith (begun s).rest ['$', '$'] = true := by
    rw [rest_begun, hrest]
    exact Text.startsWith_iff.mpr ⟨cs, rfl⟩
  rw [step_eq_settle hrest, rest_settle, hdollar, dollar, if_pos hdouble, mode_begun, hmode,
    if_neg (by decide), rest_markup]
  show s.rest.drop 2 = cs
  rw [hrest]
  rfl

/-- A star after a closing parenthesis is taken together with it. -/
theorem length_rest_step_starred {s : State} (hmode : s.modes.top = .inlineMath)
    (hrest : s.rest = '\\' :: ')' :: '*' :: cs) : (x.step s).rest.length ≤ cs.length := by
  have hfree : (begun s).mode.isOpaque = false := by rw [mode_begun, hmode]; rfl
  have hcontrol : Token.control? (begun s).rest = some 3 := by
    rw [rest_begun, hrest]
    rfl
  have htoken : Control.ofToken ['\\', ')', '*'] = .other := by decide +kernel
  obtain ⟨n, hn, hdrop⟩ := exists_rest_command (x := x) (begun s) ['\\', ')', '*']
  -- with its star the control sequence is an unknown command
  have hcommand : x.control (begun s) ['\\', ')', '*'] = x.command (begun s) ['\\', ')', '*'] := by
    unfold control
    rw [htoken]
  have htake : (begun s).rest.take 3 = ['\\', ')', '*'] := by
    rw [rest_begun, hrest]
    rfl
  rw [step_eq_settle hrest, rest_settle, construct_control hfree hcontrol, htake, hcommand, hdrop,
    rest_begun, hrest]
  simp only [List.length_drop, List.length_cons, List.length_nil] at hn ⊢
  omega

/-- A formula is closed where what comes after it lets its delimiter close it, if the delimiter
    takes some of that with it otherwise. -/
theorem leads_after_iff {s : State} {closing : List Char} {lets : Prop} (hclosing : closing ≠ [])
    (hopens : x.Passes s.modes s.rest (s.modes.push .inlineMath) (closing ++ rest))
    (hcloses : lets → x.Passes (s.modes.push .inlineMath) (closing ++ rest) s.modes rest)
    (hmisses : ¬ lets → ∀ v : State, v.modes.top = .inlineMath → v.rest = closing ++ rest →
      (x.step v).rest.length < rest.length) :
    (∃ u, x.Leads s u ∧ u.rest = rest ∧ u.modes = s.modes) ↔ lets := by
  obtain ⟨v, hleads, hmodes, hrest⟩ := hopens s rfl rfl
  constructor
  · rintro ⟨u, hu, hurest, -⟩
    by_contra hnot
    -- the step at the delimiter would pass over the beginning of what comes after it
    have hlength : 0 < closing.length := List.length_pos_iff.mpr hclosing
    have hbefore : rest.length < v.rest.length := by
      rw [hrest, List.length_append]
      omega
    have hmode : v.modes.top = .inlineMath := by rw [hmodes, ModeStack.top_push]
    exact hleads.not_inside hbefore (hmisses hnot v hmode hrest) ⟨u, hu, hurest⟩
  · intro hlets
    obtain ⟨u, hu, humodes, hurest⟩ := hcloses hlets v hmodes hrest
    exact ⟨u, hleads.trans hu, hurest, humodes⟩

/-- Prose of whatever kind is outside of formulas. -/
theorem outside_of_prose {mode : Mode} (h : mode ∈ [.paragraphText, .inlineText, .heading]) :
    mode.isOpaque = false ∧ mode ≠ .inlineMath := by
  simp only [List.mem_cons, List.not_mem_nil, or_false] at h
  rcases h with rfl | rfl | rfl <;> decide

section Formulas

variable {s : State} (hmode : s.modes.top ∈ [.paragraphText, .inlineText, .heading])
  (hbody : body.all Text.isSimple = true)

include hmode hbody

/-- A formula between dollar signs is closed unless a dollar sign comes after it. -/
theorem leads_after_dollar_iff (hne : body ≠ [])
    (hrest : s.rest = '$' :: (body ++ '$' :: rest)) :
    (∃ u, x.Leads s u ∧ u.rest = rest ∧ u.modes = s.modes) ↔ rest.head? ≠ some '$' := by
  obtain ⟨hfree, houtside⟩ := outside_of_prose hmode
  have hsingle : (body ++ '$' :: rest).head? ≠ some '$' := by
    cases body with
    | nil => exact absurd rfl hne
    | cons c body =>
      rw [List.all_cons, Bool.and_eq_true] at hbody
      intro hdollar
      rw [Option.some.inj hdollar] at hbody
      exact absurd hbody.1 (by decide)
  -- opened by the first dollar sign and read up to the second one
  have hopens : x.Passes s.modes s.rest (s.modes.push .inlineMath) (['$'] ++ rest) := by
    rw [hrest]
    exact (passes_dollar_opening hfree houtside hsingle).trans (passes_simple rfl hbody rfl)
  apply leads_after_iff (by simp) hopens passes_dollar_closing
  -- the second dollar sign is taken together with the one after it
  intro hdollar v hv hvrest
  obtain ⟨more, rfl⟩ := List.head?_eq_some_iff.mp (not_not.mp hdollar)
  rw [rest_step_dollars hv hvrest, List.length_cons]
  omega

/-- A formula between parentheses that is opened is closed unless a star comes after it. -/
theorem leads_after_parenthesis_iff (hstar : body.head? ≠ some '*')
    (hrest : s.rest = '\\' :: '(' :: (body ++ '\\' :: ')' :: rest)) :
    (∃ u, x.Leads s u ∧ u.rest = rest ∧ u.modes = s.modes) ↔ rest.head? ≠ some '*' := by
  obtain ⟨hfree, -⟩ := outside_of_prose hmode
  have hfollows : (body ++ '\\' :: ')' :: rest).head? ≠ some '*' := by
    cases body with
    | nil => simp
    | cons c body => exact hstar
  have hopens : x.Passes s.modes s.rest (s.modes.push .inlineMath) (['\\', ')'] ++ rest) := by
    have hopening : x.Passes s.modes (['\\', '('] ++ (body ++ '\\' :: ')' :: rest))
        (s.modes.push .inlineMath) (body ++ '\\' :: ')' :: rest) :=
      passes_inlineMath hfree (Token.control?_symbol rfl hfollows) rfl
    rw [hrest]
    exact hopening.trans (passes_simple rfl hbody rfl)
  apply leads_after_iff (by simp) hopens
  · intro hlets
    exact passes_mathEnd rfl (Token.control?_symbol rfl hlets) rfl
  -- the star is taken together with the parenthesis
  · intro hnot v hv hvrest
    obtain ⟨more, rfl⟩ := List.head?_eq_some_iff.mp (not_not.mp hnot)
    have hle := length_rest_step_starred (x := x) hv hvrest
    rw [List.length_cons]
    omega

end Formulas

/-- From prose of whatever kind, a formula within a line whose body is simple is read up to its end
    and leaves the modes as they were, if it stands between dollar signs and no dollar sign comes
    right after it, or between parentheses with backslashes and no star comes right after one of
    these.  If there is a dollar sign, or a star after the closing parenthesis, then the extraction
    never comes to the end of the formula: it goes on somewhere behind it. -/
theorem inline_formula_closes_iff (x : Extractor) (s : State)
    (hmode : s.modes.top ∈ [.paragraphText, .inlineText, .heading]) (body rest : List Char)
    (hne : body ≠ []) (hbody : ∀ c ∈ body,
      c ∉ ['\\', '{', '}', '$', '%', '[', '<', '\x60', '\x27', '\x22']) :
    (s.rest = '$' :: (body ++ '$' :: rest) →
      ((∃ u, x.Leads s u ∧ u.rest = rest ∧ u.modes = s.modes) ↔ rest.head? ≠ some '$')) ∧
    (s.rest = '\\' :: '(' :: (body ++ '\\' :: ')' :: rest) → body.head? ≠ some '*' →
      ((∃ u, x.Leads s u ∧ u.rest = rest ∧ u.modes = s.modes) ↔ rest.head? ≠ some '*')) := by
  have hsimple : body.all Text.isSimple = true := by
    rw [List.all_eq_true]
    exact fun c hc => Text.isSimple_iff.mpr (hbody c hc)
  constructor
  · intro hrest
    exact leads_after_dollar_iff hmode hsimple hne hrest
  · intro hrest hstar
    exact leads_after_parenthesis_iff hmode hsimple hstar hrest

/-- A formula between dollar signs with a blank in it, and a full stop after it. -/
theorem inline_formula_closes_iff_sentence :
    ∃ u, Extractor.builtin.Leads (.start "$a b$.".toList 0) u ∧ u.rest = ['.'] ∧
      u.modes = {} := by
  obtain ⟨hdollar, -⟩ := inline_formula_closes_iff Extractor.builtin (.start "$a b$.".toList 0)
    (by decide) ['a', ' ', 'b'] ['.'] (by decide) (by simp)
  exact (hdollar rfl).mpr (by decide)

/-- A formula that another one follows directly is not closed. -/
theorem inline_formula_not_closed :
    ¬ ∀ (x : Extractor) (source : List Char) (origin : Nat) (s : State) (body rest : List Char),
      x.Reaches source origin s → s.modes.top ∈ [.paragraphText, .inlineText, .heading] →
      body ≠ [] → (∀ c ∈ body,
        c ∉ ['\\', '{', '}', '$', '%', '[', '<', '\x60', '\x27', '\x22']) →
      (s.rest = '$' :: (body ++ '$' :: rest) ∨
        s.rest = '\\' :: '(' :: (body ++ '\\' :: ')' :: rest)) →
      ∃ u, x.Leads s u ∧ u.rest = rest ∧ u.modes = s.modes := by
  intro h
  have hrest : (State.start "$b$$c$".toList 0).rest = '$' :: (['b'] ++ '$' :: ['$', 'c', '$']) :=
    rfl
  have hleads := h Extractor.builtin "$b$$c$".toList 0 (.start "$b$$c$".toList 0) ['b']
    ['$', 'c', '$'] .start (by decide) (by decide) (by simp) (.inl hrest)
  exact absurd rfl ((leads_after_dollar_iff (by decide) (by decide) (by decide) hrest).mp hleads)

end Extractor

end ProseLens
