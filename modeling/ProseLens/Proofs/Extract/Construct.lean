import ProseLens.Proofs.Extract.Act

/-!
# What the constructs do

This file goes through the constructs once and says of each what it does to modes and record.
Invariants of an extraction follow by looking at the cases of `State.Acts`, and no longer at the
constructs.

## Key results

- `acts_construct`: what a construct does, in any mode
- `acts_step`: what a step does
-/

namespace ProseLens

namespace Extractor

open Extract Extract.State

variable (x : Extractor) {s : State}

/-! ## Environments -/

/-- The opening of an environment enters a mode: the one it stands in, or that of an ignored one. -/
theorem acts_openBody (hfree : s.mode.isOpaque = false) (tag : EnvironmentTag) :
    Acts x s (x.openBody s tag) := by
  unfold openBody
  dsimp only
  -- without a signature, the mode of prose around the environment goes on
  split
  · refine .of_quiet (quiet_markup s tag.control) (v := (s.markup tag.control).push s.mode) ?_
      ((quiet_finishTag _ tag).trans (quiet_swallowArguments _))
    exact prepares_push (by rwa [s.mode_markup]) hfree
  · next found _ =>
    split
    · have hhide : Prepares x s
          { s.push .ignoredEnvironment with terminator := some tag.terminator } :=
        ⟨rfl, rfl, .hide hfree⟩
      exact .markup hhide _
    · split
      · exact .of_quiet (.refl s) (prepares_push hfree hfree)
          ((quiet_markup _ _).trans ((quiet_finishTag _ tag).trans (quiet_swallowArguments _)))
      · have hmarkup : Acts x s ((s.push s.mode).markup found.length) :=
          .markup (prepares_push hfree hfree) _
        exact hmarkup.settled ⟨rfl, rfl, rfl, rfl, fun _ => .inl⟩

/-- The opening of an environment acts; that of a formula enters a mode of formulas. -/
theorem acts_openEnvironment (hfree : s.mode.isOpaque = false) (tag : EnvironmentTag) :
    Acts x s (x.openEnvironment s tag) := by
  have hkept : Quiet s s.keepPending := .of_silent rfl rfl rfl rfl rfl rfl
  unfold openEnvironment
  dsimp only
  split
  · refine .of_quiet (hkept.trans (quiet_markup _ tag.control)) ?_
      ((quiet_finishTag _ tag).trans (quiet_swallowArguments _))
    -- the mode is entered behind the control sequence
    have hfree' : (s.keepPending.markup tag.control).mode.isOpaque = false := by
      rw [mode_markup]
      exact hfree
    split
    · exact ⟨rfl, rfl, .enter hfree' rfl⟩
    · exact ⟨rfl, rfl, .enter hfree' rfl⟩
  · have hbody : Acts x s.keepPending (x.openBody s.keepPending tag) :=
      acts_openBody x (s := s.keepPending) hfree tag
    exact ⟨hbody.shift, hbody.emits.of_bearing rfl rfl, hbody.punctuation⟩

/-- The closing of an environment leaves a mode, with a placeholder after a formula. -/
theorem acts_closeEnvironment (hfree : s.mode.isOpaque = false) {tag : EnvironmentTag}
    (htag : 0 < tag.control) (hrest : s.rest ≠ []) : Acts x s (x.closeEnvironment s tag) := by
  have hmode := Mode.ne_ignored_of_not_isOpaque hfree
  have hkept : Quiet s s.keepPending := .of_silent rfl rfl rfl rfl rfl rfl
  unfold closeEnvironment
  dsimp only
  split
  -- a formula is left with a placeholder, any other environment by markup
  · have hpop : Prepares x s s.keepPending.pop.markTrivial := ⟨rfl, rfl, .leave hmode⟩
    exact .replace hpop (by omega) hrest
  · refine .of_quiet (hkept.trans (quiet_markup _ tag.control)) (prepares_pop ?_)
      (quiet_finishTag _ tag)
    rw [mode_markup]
    exact hmode

/-! ## Control sequences -/

/-- A control sequence that stands for a space reads as that space unless there is one. -/
theorem acts_space {n : Nat} {read : String} (hn : 0 < n) (hrest : s.rest ≠ [])
    (hread : read = " " ∨ read = "\u202f") : Acts x s (space s n read) := by
  have hkept : Prepares x s s.keepPending := ⟨rfl, rfl, .stay⟩
  unfold space
  split
  · split
    · next hspace =>
      simp only [Bool.and_eq_true, Bool.not_eq_true'] at hspace
      exact .markupAs prepares_refl hn hrest (.inr (.space hspace.1 (.inl rfl)))
    · exact (Acts.markup hkept n).settled ⟨rfl, rfl, rfl, rfl, fun _ => .inl⟩
  · next hmode =>
    have hmath : s.bearing.mode.isMath = false := by
      rwa [Bool.not_eq_true] at hmode
    -- in prose a space is shown unless one is there
    refine .markupAs hkept hn hrest ?_
    cases htrailing : s.trailing.space with
    | true => exact .inl rfl
    | false =>
      right
      rcases hread with rfl | rfl
      · exact .space htrailing (.inl rfl)
      · exact .space htrailing (.inr ⟨hmath, .inr rfl⟩)

/-- A heading enters the mode of its title if a title follows. -/
theorem acts_heading (hfree : s.mode.isOpaque = false) (n : Nat) : Acts x s (heading s n) := by
  -- all before the title is quiet
  have hshort : Quiet s (shortTitle (s.markup n)) := by
    refine (quiet_markup s n).trans ?_
    unfold shortTitle
    split
    · exact quiet_markup _ _
    · exact .refl _
  unfold heading title
  split
  · exact .of_quiet hshort (prepares_push (by rwa [hshort.mode_eq]) rfl) (quiet_markup _ 1)
  · exact .of_quiet hshort prepares_refl (.refl _)

/-- The command before prose in a formula enters the mode of that prose. -/
theorem acts_inlineText (hfree : s.mode.isOpaque = false) (hrest : s.rest ≠ []) (n : Nat) :
    Acts x s (x.inlineText s n) := by
  have hpush : Prepares x s (s.push .inlineText) := prepares_push hfree rfl
  unfold inlineText
  dsimp only
  split
  · split
    · exact .replace hpush (by omega) hrest
    · exact .markup hpush _
  · exact .markup prepares_refl n

/-- A command is markup, or a placeholder if its signature says so. -/
theorem acts_command {token : List Char} (htoken : 0 < token.length) (hrest : s.rest ≠ []) :
    Acts x s (x.command s token) := by
  have hplain (lead : Lead) :
      Acts x s ({ s with formula := { s.formula with lead } }.markup token.length) := by
    have hlead : Prepares x s { s with formula := { s.formula with lead } } := ⟨rfl, rfl, .stay⟩
    exact .markup hlead _
  unfold command
  dsimp only
  split
  · exact hplain _
  · next found hfound =>
    -- what a signature matches has the name in it, which is not empty
    have hlength : 0 < found.length := by
      have hle := Signature.Registry.length_le_of_command?_eq_some hfound
      rw [String.length_ofList] at hle
      omega
    split
    · exact .markup prepares_refl _
    · exact .replace prepares_refl hlength hrest
    · exact hplain _

/-- The control sequence `token` at the reading position. -/
theorem acts_control {token : List Char} (hfree : s.mode.isOpaque = false)
    (hcontrol : Token.control? s.rest = some token.length)
    (htoken : s.rest.take token.length = token) (hne : token ≠ []) :
    Acts x s (x.control s token) := by
  have hn : 0 < token.length := List.length_pos_iff.mpr hne
  have hrest : s.rest ≠ [] := by
    rintro hnil
    simp [hnil, hne.symm] at htoken
  have hmode := Mode.ne_ignored_of_not_isOpaque hfree
  -- one case for each kind of control sequence, in the order in which they are told apart
  unfold control
  dsimp only
  split
  · exact x.acts_openEnvironment hfree _
  · next attached _ =>
    refine x.acts_closeEnvironment hfree ?_ hrest
    cases attached <;> exact hn
  · next c hmeaning =>
    obtain ⟨rfl, hc⟩ := Control.token_of_escaped hmeaning
    refine .markupAs prepares_refl hn hrest (.inr ?_)
    -- a star after the sign would belong to the control sequence
    have hsplit : '\\' :: c :: s.rest.drop 2 = s.rest := by
      have happend := List.take_append_drop 2 s.rest
      rwa [show s.rest.take 2 = ['\\', c] from htoken] at happend
    have hstar : (s.rest.drop 2).head? ≠ some '*' := by
      apply Token.head?_ne_star_of_control? (c := c)
      rw [hsplit]
      exact hcontrol
    rw [htoken]
    exact .escaped hc hstar
  · have hdisplay : Prepares x s s.enterDisplayMath := ⟨rfl, rfl, .enter hfree rfl⟩
    exact .markup hdisplay _
  · have hinline : Prepares x s s.enterInlineMath := ⟨rfl, rfl, .enter hfree rfl⟩
    exact .markup hinline _
  · exact .replace (prepares_pop hmode) hn hrest
  · exact .markup prepares_refl _
  · have hkept : Prepares x s s.keepPending := ⟨rfl, rfl, .stay⟩
    exact .markup hkept _
  · exact x.acts_inlineText hfree hrest _
  · split
    · next hlength => exact .replace prepares_refl (Token.verbatim?_pos hlength) hrest
    · exact .markup prepares_refl _
  · split
    · next accent haccent =>
      -- accents are not looked for in formulas
      split at haccent
      · cases haccent
      · next hmath =>
        exact .markupAs prepares_refl (Token.accent?_pos haccent) hrest
          (.inr (.accent (Token.isBase_of_accent? haccent) fun h => absurd h hmath))
    · exact .markup prepares_refl _
  · next read measured hspace =>
    exact x.acts_space (by omega) hrest (Control.read_of_space hspace)
  · exact x.acts_heading hfree _
  · next read hread =>
    refine .markupAs prepares_refl hn hrest ?_
    cases hmath : s.mode.isMath with
    | true => exact .inl rfl
    | false => exact .inr (.word hmath hread)
  · exact x.acts_command hn hrest

/-- A control sequence acts, whatever it stands for. -/
theorem acts_backslash (hfree : s.mode.isOpaque = false) : Acts x s (x.backslash s) := by
  unfold backslash
  split
  · next n hn =>
    -- a control sequence that is found takes something
    by_cases hrest : s.rest = []
    · rw [hrest] at hn
      cases hn
    · have hlength : (s.rest.take n).length = n :=
        List.length_take_of_le (Token.length_le_of_control? hn)
      refine x.acts_control hfree (by rw [hlength, hn]) (by rw [hlength]) ?_
      exact s.take_ne_nil (Token.control?_pos hn) hrest
  · exact .of_quiet (.refl s) prepares_refl (.refl s)

/-! ## Other characters -/

/-- A character of an ignored environment is markup, and its closing tag leaves the mode. -/
theorem acts_ignored (hmode : s.mode = .ignoredEnvironment) (hterminator : s.terminator ≠ none) :
    Acts x s (ignored s) := by
  unfold ignored
  split
  · next hnone => exact absurd hnone hterminator
  · split
    · have hreveal : Prepares x s { s.pop with terminator := none } := ⟨rfl, rfl, .reveal hmode⟩
      exact .markup hreveal _
    · exact .markup prepares_refl 1

/-- A character of a chunk of code is markup, and an at sign may leave the mode. -/
theorem acts_codeChunk (hmode : s.mode ≠ .ignoredEnvironment) (c : Char) :
    Acts x s (codeChunk s c) := by
  unfold codeChunk
  split
  · exact .markup (prepares_pop hmode) 1
  · exact .markup prepares_refl 1

/-- An opening brace is a length, an accented letter, or enters a mode. -/
theorem acts_openBrace (hfree : s.mode.isOpaque = false) (hrest : s.rest ≠ []) :
    Acts x s (openBrace s) := by
  unfold openBrace
  split
  · exact .markup prepares_refl _
  · split
    -- the accent is read as its letter, also in a formula
    · next haccent =>
      refine .markupAs prepares_refl (Token.accentGroup?_pos haccent) hrest
        (.inr (.accent (Token.isBase_of_accentGroup? haccent) fun _ => ?_))
      rw [List.take_append_drop, haccent]
      exact Option.some_ne_none _
    · exact .markup (prepares_push hfree hfree) 1

/-- A closing brace leaves a mode; it may be read as the end of a title or as a gap. -/
theorem acts_closeBrace (hfree : s.mode.isOpaque = false) {cs : List Char}
    (hrest : s.rest = '}' :: cs) : Acts x s (closeBrace s) := by
  have hmode := Mode.ne_ignored_of_not_isOpaque hfree
  have hread : Acts x s (s.pop.markupAs 1 (closeBraceRead s)) := by
    refine .markupAs (prepares_pop hmode) Nat.one_pos (by simp [hrest]) ?_
    unfold closeBraceRead
    rw [hrest]
    split
    · next h => exact .inr (.title h.1 h.2)
    · split
      · next h =>
        obtain ⟨hmode, hnext⟩ := h
        -- the gap is one before another group
        obtain ⟨next, hcs⟩ : ∃ next, cs = '{' :: next := by
          cases cs with
          | nil => simp at hnext
          | cons c next => simp_all
        right
        rw [hcs]
        exact .gap hmode
      · exact .inl rfl
  exact hread.settled ⟨rfl, rfl, rfl, rfl, fun _ => .inl⟩

/-- A dollar sign enters a formula, or leaves it with a placeholder. -/
theorem acts_dollar (hfree : s.mode.isOpaque = false) (hrest : s.rest ≠ []) :
    Acts x s (x.dollar s) := by
  have hmode := Mode.ne_ignored_of_not_isOpaque hfree
  have hdisplay : Prepares x s s.enterDisplayMath := ⟨rfl, rfl, .enter hfree rfl⟩
  have hinline : Prepares x s s.enterInlineMath := ⟨rfl, rfl, .enter hfree rfl⟩
  unfold dollar
  -- two dollars are tested before one; either closes the open formula or opens one
  split
  · split
    · exact .replace (prepares_pop hmode) Nat.two_pos hrest
    · exact .markup hdisplay 2
  · split
    · exact .replace (prepares_pop hmode) Nat.one_pos hrest
    · exact .markup hinline 1

/-- A comment is read as nothing, or as the paragraph break that it holds. -/
theorem acts_percent {cs : List Char} (hrest : s.rest = '%' :: cs) : Acts x s (percent s) := by
  have hkept : Prepares x s s.keepPending.markTrivial := ⟨rfl, rfl, .stay⟩
  refine .markupAs hkept (Token.comment?_getD_pos s.rest) (by simp [hrest]) ?_
  split
  · next hblank =>
    obtain ⟨n, hn⟩ : ∃ n, Token.comment? s.rest = some n := by
      rw [hrest]
      exact ⟨_, rfl⟩
    rw [hn] at hblank ⊢
    -- in a formula it must be the comment itself that holds the blank line
    refine .inr (.paragraph hblank fun _ => ?_)
    rw [List.take_append_drop]
    exact ⟨n, hn, rfl⟩
  · exact .inl rfl

/-- Blanks are read as nothing, as a space, or as a paragraph break; a tie in its own way. -/
theorem acts_blank (hrest : s.rest ≠ []) (c : Char) : Acts x s (blank s c) := by
  have hkept : Prepares x s s.keepPending.markTrivial := ⟨rfl, rfl, .stay⟩
  have hlength :
      0 < if (c == '~' || c == '&') = true then 1 else (Token.blanks? s.rest).getD 1 := by
    split
    · exact Nat.one_pos
    · exact Token.blanks?_getD_pos s.rest
  unfold blank
  dsimp only
  -- whether the blank stands alone decides its length, and what waits after it
  generalize (if (c == '~' || c == '&') = true then 1 else (Token.blanks? s.rest).getD 1) = n
    at hlength ⊢
  have hread : Acts x s (if s.mode.isText = true then
      s.keepPending.markTrivial.markupAs n
        (if Token.hasBlankLine (s.rest.take n) = true then "\n\n"
        else if s.trailing.space = true then "" else if c = '~' then "\u00a0" else " ")
      else s.keepPending.markTrivial.markup n) := by
    split
    · next htext =>
      have hmath : s.mode.isMath = false := Mode.isMath_of_isText htext
      refine .markupAs hkept hlength hrest ?_
      split
      · next hblank => exact .inr (.paragraph hblank fun h => by simp [bearing, hmath] at h)
      · split
        · exact .inl rfl
        · next hspace =>
          rw [Bool.not_eq_true] at hspace
          split
          · exact .inr (.space hspace (.inr ⟨hmath, .inl rfl⟩))
          · exact .inr (.space hspace (.inl rfl))
    · exact .markup hkept n
  split
  · exact hread.settled ⟨rfl, rfl, rfl, rfl, fun _ => .inl⟩
  · exact hread

/-- A character with no meaning of its own is shown in prose and is markup elsewhere. -/
theorem acts_plainCharacter {c : Char} {cs : List Char} (hrest : s.rest = c :: cs)
    (hc : Text.isOrdinary c = true) : Acts x s (plainCharacter s c) := by
  unfold plainCharacter
  split
  · next hmode =>
    have hrecords := s.records_text (n := 1) (by simp [hrest])
    rw [hrest] at hrecords
    refine .of_emits prepares_refl (.prose c hmode hc hrecords (s.placeholders_text 1))
      (s.modes_text 1) (s.terminator_text 1) ?_
    rw [s.pending_text]
    exact fun _ => id
  · -- punctuation in a formula waits for the placeholder of the formula
    refine (Acts.markup prepares_refl 1).settled ⟨rfl, rfl, rfl, rfl, ?_⟩
    intro d hd
    dsimp only at hd
    split at hd
    · next hpunctuation =>
      obtain rfl := Option.some.inj hd
      exact .inr hpunctuation
    · exact .inl hd

/-- A quotation mark is read together with its partner, and is a plain character without one. -/
theorem acts_quotationMark {c : Char} {cs : List Char} (hrest : s.rest = c :: cs)
    (hc : Text.isOrdinary c = true) : Acts x s (quotationMark s c) := by
  unfold quotationMark
  split
  · next hmode =>
    split
    -- a pair that is found is one of the table
    · next pair read hfound =>
      exact .markupAs prepares_refl Nat.two_pos (by simp [hrest])
        (.inr (.digraph hmode (List.mem_of_find?_eq_some hfound)))
    · exact x.acts_plainCharacter hrest hc
  · exact .markup prepares_refl 1

/-- Dashes, lengths in brackets, chunk openings and plain characters act. -/
theorem acts_otherCharacter (hfree : s.mode.isOpaque = false) {c : Char} {cs : List Char}
    (hrest : s.rest = c :: cs) (hc : Text.isOrdinary c = true) :
    Acts x s (x.otherCharacter s c) := by
  have hne : s.rest ≠ [] := by simp [hrest]
  unfold otherCharacter
  split
  · next h => exact .markupAs prepares_refl (by omega) hne (.inr (.dash h.2.1 (.inl rfl)))
  · split
    · next h => exact .markupAs prepares_refl Nat.two_pos hne (.inr (.dash h.2.1 (.inr rfl)))
    · dsimp only
      split
      · have hkept : Prepares x s s.markTrivial.keepPending := ⟨rfl, rfl, .stay⟩
        exact .markup hkept _
      · next hchunk =>
        -- chunks are looked for in one dialect only
        split at hchunk
        · next h =>
          have hpush : Prepares x s (s.push .embeddedCodeChunk) := ⟨rfl, rfl, .chunk hfree h.2⟩
          exact .markup hpush _
        · cases hchunk
      · exact x.acts_plainCharacter hrest hc

/-! ## Steps -/

/-- What a construct does, in any mode.  That an ignored environment is read without knowing how it
    ends is left out. -/
theorem acts_construct {c : Char} {cs : List Char} (hrest : s.rest = c :: cs)
    (hterminator : s.mode = .ignoredEnvironment → s.terminator ≠ none) :
    Acts x s (x.construct s c) := by
  have hne : s.rest ≠ [] := by simp [hrest]
  unfold construct
  split
  · next hmode => exact x.acts_ignored hmode (hterminator hmode)
  · next hmode => exact x.acts_codeChunk (by simp [hmode]) c
  · next hignored hchunk =>
    -- in all other modes the construct is told by its first character
    have hfree := Mode.isOpaque_eq_false_iff.mpr ⟨hignored, hchunk⟩
    split
    · exact x.acts_backslash hfree
    · exact x.acts_openBrace hfree hne
    · exact x.acts_closeBrace hfree hrest
    · exact x.acts_dollar hfree hne
    · exact x.acts_percent hrest
    · exact x.acts_blank hne _
    · exact x.acts_blank hne _
    · exact x.acts_blank hne _
    · exact x.acts_blank hne _
    · exact x.acts_blank hne _
    · exact x.acts_blank hne _
    · exact x.acts_quotationMark hrest rfl
    · exact x.acts_quotationMark hrest rfl
    · exact x.acts_quotationMark hrest rfl
    -- a character that none of the cases above names has no meaning of its own
    · refine x.acts_otherCharacter hfree hrest ?_
      simp_all [Text.isOrdinary, Text.specials]

/-- What a step does.  The construct begins in the mode that is innermost before the step. -/
theorem acts_step (hrest : s.rest ≠ [])
    (hterminator : s.modes.top = .ignoredEnvironment → s.terminator ≠ none) :
    Acts x { s with mode := s.modes.top, trivial := false } (x.step s) := by
  obtain ⟨c, cs, hcons⟩ := List.exists_cons_of_ne_nil hrest
  rw [x.step_of_cons s hcons]
  refine (acts_construct x (s := { s with mode := s.modes.top, trivial := false }) hcons
    hterminator).settled ?_
  unfold settle
  split
  · exact settles_refl _
  · exact ⟨rfl, rfl, rfl, rfl, fun _ => .inl⟩

end Extractor

end ProseLens
