import Mathlib.Data.List.Infix
import ProseLens.Proofs.Extract.Discipline
import ProseLens.Proofs.Extract.Mirror
import ProseLens.Signature.Builtin

/-!
# Either kind of line break

A source with line feeds and the same source with a carriage return before each of them are
extracted in step.  In modes that read constructs one step goes with one step.  In the opaque modes
characters are passed over one at a time, so that a line break is one step on the one side and two
on the other, and punctuation that waits may be forgotten earlier; but what waits is forgotten there
in any case (`Follows`).

All of this holds as long as no construct is a backslash before a line feed, for which there is no
counterpart: before a carriage return the backslash takes the carriage return alone, and the line
feed is read as a blank.

## Key results

- `exists_follows_step`: what one step is followed by
- `Reaches.exists_follows`: what is reached is followed by what is reached
- `line_breaks_are_alike`: both sources are extracted with the same plain text
-/

namespace ProseLens

open Text

namespace Extract

namespace Terminator

variable {terminator : Terminator}

/-- A terminator without a line break is found in either text alike. -/
theorem length?_crlf (h : Unbroken terminator.command) (cs : List Char) :
    terminator.length? (crlf cs) = terminator.length? cs := by
  cases terminator with
  | braced name =>
    have hstarts : startsWith (crlf cs) ("\\end\x7b".toList ++ name ++ ['}']) =
        startsWith cs ("\\end\x7b".toList ++ name ++ ['}']) := startsWith_crlf h cs
    simp only [length?, hstarts]
  -- here the character behind the name counts too, and a letter is no line end
  | attached name =>
    have hstrip : stripFront? ("\\stop".toList ++ name) (crlf cs) =
        (stripFront? ("\\stop".toList ++ name) cs).map crlf := stripFront?_crlf h cs
    simp only [length?, hstrip]
    cases stripFront? ("\\stop".toList ++ name) cs with
    | none => rfl
    | some rest => simp only [Option.map_some, any_head?_crlf (p := Char.isAlpha) rfl]

/-- A terminator without a line break stands on one line. -/
theorem onLine_of_length? (h : Unbroken terminator.command) {cs : List Char} {n : Nat}
    (hlength : terminator.length? cs = some n) : OnLine cs n := by
  obtain ⟨after, rfl, hprecedes⟩ := stands_of_length? hlength
  rw [length?_command_append hprecedes] at hlength
  obtain rfl := Option.some.inj hlength
  exact .of_append h.not_mem after

end Terminator

/-- The end of a chunk of code is found in either text alike. -/
theorem chunkEnd?_crlf (cs : List Char) : chunkEnd? (crlf cs) = chunkEnd? cs := by
  refine eq_crlf_of_head? '@' none rfl ?_ (fun _ => rfl) cs
  intro cs hhead
  unfold chunkEnd?
  split
  · exact absurd rfl hhead
  · rfl

/-- Markup in two parts drops what waits, whether or not it was kept over the first part. -/
theorem Pending.afterMarkup_afterMarkup (pending : Pending) :
    pending.afterMarkup.afterMarkup = pending.afterMarkup.clear := by
  obtain ⟨space, punctuation, kept⟩ := pending
  cases kept <;> rfl

/-- Behind markup nothing is kept any more. -/
theorem Pending.kept_afterMarkup (pending : Pending) : pending.afterMarkup.kept = false := by
  obtain ⟨space, punctuation, kept⟩ := pending
  cases kept <;> rfl

namespace State

variable {s t : State} {end? : List Char → Option Nat}

/-- Nothing waits any more. -/
def forget (s : State) : State := { s with pending := s.pending.clear }

/-- Markup forgets what waits, unless that is kept. -/
theorem markup_forget (hkept : s.pending.kept = false) {n : Nat} (htake : s.rest.take n ≠ []) :
    s.forget.markup n = s.markup n := by
  have hpending : s.pending.clear.afterMarkup = s.pending.afterMarkup := by
    simp [Pending.afterMarkup, Pending.clear, hkept]
  rw [markup_eq _ _ htake, markup_eq _ _ (show s.forget.rest.take n ≠ [] from htake)]
  simp only [forget, hpending]

/-- `t` is where `s` is, up to the expansion of line breaks.  In an opaque mode it may already have
    forgotten what the next character makes `s` forget. -/
def Follows (s t : State) : Prop :=
  Mirrors s t ∨ (s.modes.top.isOpaque = true ∧ s.pending.kept = false ∧ Mirrors s.forget t)

/-- States that follow each other have the same plain text. -/
theorem Follows.plain_eq (h : Follows s t) : t.builder.plain = s.builder.plain := by
  rcases h with h | ⟨-, -, h⟩
  · exact h.plain_eq
  · exact h.plain_eq

/-- The unread text of a state that follows is expanded. -/
theorem Follows.rest_eq (h : Follows s t) : t.rest = crlf s.rest := by
  rcases h with h | ⟨-, -, h⟩
  · exact h.rest_eq
  · exact h.rest_eq

/-- Outside of opaque modes nothing is forgotten too early. -/
theorem Follows.mirrors (h : Follows s t) (hfree : s.modes.top.isOpaque = false) : Mirrors s t := by
  rcases h with h | ⟨hhidden, -⟩
  · exact h
  · rw [hfree] at hhidden
    exact nomatch hhidden

/-- Beginning a step depends on the modes only. -/
theorem Mirrors.begun (h : Mirrors s t) : Mirrors (Extractor.begun s) (Extractor.begun t) :=
  h.remember Extractor.begun (fun _ _ _ => rfl) rfl

/-- Settling depends on what is remembered only. -/
theorem Mirrors.settle (h : Mirrors s t) : Mirrors (Extractor.settle s) (Extractor.settle t) := by
  refine h.remember Extractor.settle (fun _ _ _ => ?_) (Extractor.terminator_settle s)
  unfold Extractor.settle
  split <;> rfl

/-- Reports do not matter. -/
theorem Mirrors.report (h : Mirrors s t) (event event' : Event) :
    Mirrors (s.report event) (t.report event') := by
  obtain ⟨builder, events, rfl, hplain⟩ := h.eq_expanded
  exact ⟨⟨builder, event' :: events, rfl, hplain⟩, h.no_return, h.unbroken⟩

/-- States that mirror each other are stuck alike. -/
theorem Mirrors.stuck_iff (h : Mirrors s t) : t.Stuck ↔ s.Stuck := by
  -- expanding a line break gives no lone backslash, nor does it take one away
  have hlone : crlf s.rest = ['\\'] ↔ s.rest = ['\\'] := by
    constructor
    · intro hrest
      have hhead : (crlf s.rest).head? = some '\\' := by rw [hrest]; rfl
      obtain ⟨rest, hcons⟩ := List.head?_eq_some_iff.mp ((head?_crlf_iff rfl).mp hhead)
      rw [hcons, crlf_cons (by decide)] at hrest
      rw [hcons, crlf_eq_nil_iff.mp (List.cons.inj hrest).2]
    · intro hrest
      rw [hrest]
      rfl
  rw [Stuck, Stuck, h.rest_eq, h.modes_eq, hlone]

/-! ## What is hidden -/

/-- Text in an opaque mode is hidden up to some end. -/
theorem exists_hides (hhidden : s.modes.top.isOpaque = true)
    (hterminator : s.modes.top = .ignoredEnvironment → s.terminator ≠ none) :
    ∃ end?, s.Hides end? := by
  by_cases hchunk : s.modes.top = .embeddedCodeChunk
  · exact ⟨_, .chunk hchunk⟩
  · have htop : s.modes.top = .ignoredEnvironment := by
      cases hmode : s.modes.top <;> simp_all [Mode.isOpaque]
    obtain ⟨terminator, hknown⟩ := Option.ne_none_iff_exists'.mp (hterminator htop)
    exact ⟨_, .environment htop hknown⟩

/-- Hidden text stands in an opaque mode. -/
theorem Hides.isOpaque (h : s.Hides end?) : s.modes.top.isOpaque = true := by
  cases h with
  | environment htop => rw [htop]; rfl
  | chunk htop => rw [htop]; rfl

/-- What waits does not matter inside of hidden text. -/
theorem Hides.forget (h : s.Hides end?) : s.forget.Hides end? := by
  cases h with
  | environment htop hknown => exact .environment htop hknown
  | chunk htop => exact .chunk htop

/-- Hidden text is hidden up to the same end in a state that mirrors. -/
theorem Hides.mirrors (hs : s.Hides end?) (h : Mirrors s t) : t.Hides end? := by
  cases hs with
  | environment htop hknown =>
    exact .environment (by rw [h.modes_eq, htop]) (by rw [h.terminator_eq, hknown])
  | chunk htop => exact .chunk (by rw [h.modes_eq, htop])

/-- The end of hidden text takes at least one character. -/
theorem Hides.end?_pos (hs : s.Hides end?) {cs : List Char} {n : Nat} (hend : end? cs = some n) :
    0 < n := by
  cases hs with
  | environment htop hknown => exact Terminator.length?_pos hend
  | chunk htop =>
    obtain ⟨rfl, -⟩ := exists_of_chunkEnd? hend
    exact Nat.one_pos

/-- The end of what is hidden is on one line, and is found in both texts. -/
theorem Hides.end?_crlf (hs : s.Hides end?) (h : Mirrors s t) :
    ∀ cs, end? (crlf cs) = end? cs := by
  intro cs
  cases hs with
  | environment htop hknown => exact Terminator.length?_crlf (h.unbroken _ hknown) cs
  | chunk htop => exact chunkEnd?_crlf cs

/-- The end of hidden text stands on one line. -/
theorem Hides.onLine_end? (hs : s.Hides end?) (h : Mirrors s t) {cs : List Char} {n : Nat}
    (hend : end? cs = some n) : OnLine cs n := by
  cases hs with
  | environment htop hknown => exact Terminator.onLine_of_length? (h.unbroken _ hknown) hend
  | chunk htop =>
    obtain ⟨rfl, rest, rfl⟩ := exists_of_chunkEnd? hend
    exact .cons (by decide) (.zero rest)

end State

end Extract

namespace Extractor

open Extract Extract.State

variable {x : Extractor} {s t : State} {end? : List Char → Option Nat}

/-! ## Steps -/

/-- What was about to be forgotten makes no difference to the next step. -/
theorem step_forget (hs : s.Hides end?) (hrest : s.rest ≠ []) (hkept : s.pending.kept = false) :
    x.step s.forget = x.step s := by
  -- clearing what is pending beforehand changes nothing, since markup clears it and nothing is kept
  have hmarkup {u : State} (hu : u.rest = s.rest) (hpending : u.pending = s.pending) {n : Nat}
      (hn : 0 < n) : u.forget.markup n = u.markup n := by
    refine markup_forget (by rw [hpending, hkept]) ?_
    rw [hu]
    exact s.take_ne_nil hn hrest
  cases hend : end? s.rest with
  | none =>
    rw [Hides.step_of_none hs hrest hend, Hides.step_of_none hs.forget hrest hend]
    exact congrArg settle (hmarkup (u := begun s) rfl rfl Nat.one_pos)
  | some n =>
    rw [Hides.step_of_some hs hrest hend, Hides.step_of_some hs.forget hrest hend]
    exact congrArg settle (hmarkup (u := { (begun s).pop with
      terminator := if s.modes.top = Mode.ignoredEnvironment then none else s.terminator })
      rfl rfl (hs.end?_pos hend))

/-- A character that is passed over. -/
theorem step_pass (hs : s.Hides end?) {c : Char} {cs : List Char} (hrest : s.rest = c :: cs)
    (hend : end? s.rest = none) :
    x.step s = { s with
      rest := cs
      builder := s.builder.appendMarkup (String.ofList [c]) ""
      mode := s.modes.top
      pending := s.pending.afterMarkup
      formula := { s.formula with empty := false, spaceBefore := false }
      trivial := false } := by
  have hne : s.rest ≠ [] := by simp [hrest]
  have htake : (begun s).rest.take 1 = [c] := by
    rw [rest_begun, hrest]
    rfl
  rw [Hides.step_of_none hs hne hend, markup_eq _ _ (by simpa using hne), htake, rest_begun, hrest]
  rfl

/-- A line break that is passed over in one step is followed by two. -/
theorem follows_break (hs : s.Hides end?) (h : Mirrors s t) {cs : List Char}
    (hrest : s.rest = '\n' :: cs) (hend : end? s.rest = none) :
    ∃ t', x.Leads t t' ∧ Follows (x.step s) t' := by
  have hrest' : t.rest = '\r' :: '\n' :: crlf cs := by rw [h.rest_eq, hrest, crlf_break]
  have hend' : end? t.rest = none := by rw [h.rest_eq, hs.end?_crlf h, hend]
  have hs' := hs.mirrors h
  have hstep := step_pass (x := x) hs' hrest' hend'
  obtain ⟨hpassed, hdrop, -, -⟩ := Hides.pass (x := x) hs' (by simp [hrest']) hend'
  have hrest₁ : (x.step t).rest = '\n' :: crlf cs := by rw [hdrop, hrest']; rfl
  -- no end begins with the line feed either
  have hend₁ : end? (x.step t).rest = none := by
    rw [hrest₁]
    cases hfound : end? ('\n' :: crlf cs) with
    | none => rfl
    | some n =>
      have hline := (hs.onLine_end? h hfound).mono (hs.end?_pos hfound)
      exact absurd (by simp) hline.line
  have hstep₁ := step_pass (x := x) hpassed hrest₁ hend₁
  refine ⟨x.step (x.step t), ?_, ?_⟩
  · exact (Hides.leads_step hs' (by simp [hrest'])).trans
      (Hides.leads_step hpassed (by simp [hrest₁]))
  · -- the second step forgets what waits even if the first one was to keep it
    right
    rw [step_pass hs hrest hend, hstep₁, hstep]
    refine ⟨hs.isOpaque, Pending.kept_afterMarkup _, ?_⟩
    obtain ⟨builder, events, rfl, hsame⟩ := h.eq_expanded
    refine ⟨⟨(builder.appendMarkup (String.ofList ['\r']) "").appendMarkup
      (String.ofList ['\n']) "", events, ?_, ?_⟩, ?_, h.unbroken⟩
    · simp only [State.forget, Pending.afterMarkup_afterMarkup]
    · simp only [State.forget, AnnotatedText.Builder.plain_appendMarkup_empty, hsame]
    · exact fun hmem => h.no_return (by rw [hrest]; exact List.mem_cons_of_mem _ hmem)

/-- A step inside of hidden text is followed: a line feed is one step here and two steps there. -/
theorem exists_follows_of_hides (hs : s.Hides end?) (h : Mirrors s t) (hrest : s.rest ≠ []) :
    ∃ t', x.Leads t t' ∧ Follows (x.step s) t' := by
  have hs' := hs.mirrors h
  have hrest' : t.rest ≠ [] := by rwa [h.rest_eq, ne_eq, crlf_eq_nil_iff]
  have hend' : end? t.rest = end? s.rest := by rw [h.rest_eq, hs.end?_crlf h]
  cases hend : end? s.rest with
  | some n =>
    rw [hend] at hend'
    refine ⟨x.step t, Hides.leads_step hs' hrest', .inl ?_⟩
    rw [Hides.step_of_some hs hrest hend, Hides.step_of_some hs' hrest' hend', h.modes_eq,
      h.terminator_eq]
    -- an ignored environment has its terminator taken away, a chunk has none of its own
    have hknown : ∀ known ∈ (if s.modes.top = Mode.ignoredEnvironment then none
        else s.terminator), Unbroken known.command := by
      split
      · exact nofun
      · exact h.unbroken
    exact ((h.begun.pop.ignoring hknown).markup (hs.onLine_end? h hend).fits).settle
  | none =>
    rw [hend] at hend'
    obtain ⟨c, cs, hcons⟩ := List.exists_cons_of_ne_nil hrest
    by_cases hc : c = '\n'
    · -- the only place where two steps follow one
      subst hc
      exact follows_break hs h hcons hend
    · refine ⟨x.step t, Hides.leads_step hs' hrest', .inl ?_⟩
      rw [Hides.step_of_none hs hrest hend, Hides.step_of_none hs' hrest' hend']
      have hline : OnLine s.rest 1 := .one hc (by rw [hcons]; rfl)
      exact (h.begun.markup hline.fits).settle

/-- A step in a mode that reads constructs. -/
theorem mirrors_step (hx : x.registry.Unbroken) (h : Mirrors s t)
    (hfree : s.modes.top.isOpaque = false) (hescaped : ¬ ['\\', '\n'] <+: s.rest)
    (hrest : s.rest ≠ []) : Mirrors (x.step s) (x.step t) := by
  obtain ⟨c, cs, hcons⟩ := List.exists_cons_of_ne_nil hrest
  obtain ⟨c', cs', hcons'⟩ : ∃ c' cs', t.rest = c' :: cs' := by
    apply List.exists_cons_of_ne_nil
    rwa [h.rest_eq, ne_eq, crlf_eq_nil_iff]
  rw [step_eq_settle hcons, step_eq_settle hcons']
  exact (mirrors_construct hx h.begun hfree hescaped hcons hcons').settle

/-- What one step is followed by. -/
theorem exists_follows_step (hx : x.registry.Unbroken) (h : Follows s t) (hrest : s.rest ≠ [])
    (hstuck : ¬ s.Stuck) (hterminator : s.modes.top = .ignoredEnvironment → s.terminator ≠ none)
    (hescaped : s.modes.top.isOpaque = false → ¬ ['\\', '\n'] <+: s.rest) :
    ∃ t', x.Leads t t' ∧ Follows (x.step s) t' := by
  cases hhidden : s.modes.top.isOpaque with
  | false =>
    have hmirrors := h.mirrors hhidden
    refine ⟨x.step t, leads_step ?_ ?_, .inl ?_⟩
    · rwa [h.rest_eq, ne_eq, crlf_eq_nil_iff]
    · rwa [hmirrors.stuck_iff]
    · exact mirrors_step hx hmirrors hhidden (hescaped hhidden) hrest
  | true =>
    obtain ⟨end?, hs⟩ := exists_hides hhidden hterminator
    rcases h with h | ⟨-, hkept, h⟩
    · exact exists_follows_of_hides hs h hrest
    · -- `s` takes the step that it would take if it had forgotten as well
      rw [← step_forget hs hrest hkept]
      exact exists_follows_of_hides hs.forget h hrest

/-! ## Runs -/

/-- No construct of the source is a backslash before a line feed. -/
def EscapesNoBreak (x : Extractor) (source : List Char) (origin : Nat) : Prop :=
  ∀ s, x.Reaches source origin s → s.modes.top.isOpaque = false → ¬ ['\\', '\n'] <+: s.rest

variable {source : List Char} {origin : Nat}

/-- A backslash that is all that is left is skipped in both texts. -/
theorem mirrors_skip (h : Mirrors s t) (hstuck : s.Stuck) (source source' : List Char) :
    Mirrors ((x.step s).skip source) ((x.step t).skip source') := by
  have hstep {u : State} (hu : u.Stuck) : x.step u = settle (begun u) := by
    rw [step_eq_settle hu.1, x.construct_of_lone (begun u) hu.1 hu.2.1 hu.2.2]
  have hline : OnLine (settle (begun s)).rest 1 := by
    rw [rest_settle, rest_begun, hstuck.1]
    exact .cons (by decide) (.zero _)
  rw [hstep hstuck, hstep (h.stuck_iff.mpr hstuck)]
  exact (h.begun.settle.report _ _).markup hline.fits

/-- What is reached with the one kind of line break is followed by what is reached with the
    other. -/
theorem Reaches.exists_follows (hx : x.registry.Unbroken) (hreturn : '\r' ∉ source)
    (hescaped : x.EscapesNoBreak source origin) (h : x.Reaches source origin s) :
    ∃ t, x.Reaches (crlf source) origin t ∧ Follows s t := by
  induction h with
  -- the induction is on the steps of the shorter text
  | start =>
    refine ⟨State.start (crlf source) origin, .start, .inl ?_⟩
    exact ⟨⟨_, [], rfl, rfl⟩, hreturn, nofun⟩
  -- one step here, and as many as it takes there
  | @step s h hrest hmoves ih =>
    obtain ⟨t, ht, hfollows⟩ := ih
    rw [stalls_iff_stuck] at hmoves
    obtain ⟨t', hleads, hfollows'⟩ := exists_follows_step hx hfollows hrest hmoves
      h.terminator_ne_none (hescaped s h)
    exact ⟨t', ht.leads hleads, hfollows'⟩
  | @skip s h hstalls hlenient ih =>
    obtain ⟨t, ht, hfollows⟩ := ih
    have hstuck : s.Stuck := (stalls_iff_stuck x s).mp hstalls
    -- a stuck state stands in front of a lone backslash, where both texts end alike
    have hmirrors := hfollows.mirrors (Mode.isOpaque_eq_false_iff.mpr hstuck.2)
    have hstalls' : x.Stalls t := (stalls_iff_stuck x t).mpr (hmirrors.stuck_iff.mpr hstuck)
    exact ⟨_, .skip ht hstalls' hlenient, .inl (mirrors_skip hmirrors hstuck _ _)⟩

/-- No built-in signature has a line break in its name. -/
theorem unbroken_builtin : Signature.Registry.builtin.Unbroken := by
  unfold Signature.Registry.Unbroken
  decide +kernel

/-- A source and the same source with a carriage return before every line feed are extracted with
    the same plain text, in any language and dialect, if no construct is a backslash before a line
    feed. -/
theorem line_breaks_are_alike (options : Options) (hlenient : options.strict = false)
    (source : String) (origin : Nat) (hreturn : '\r' ∉ source.toList)
    (hescaped : EscapesNoBreak ⟨.builtin, options⟩ source.toList origin) :
    ∃ text text', (extract ⟨.builtin, options⟩ source origin).result = .ok text ∧
      (extract ⟨.builtin, options⟩ (String.ofList (crlf source.toList)) origin).result =
        .ok text' ∧
      text'.plain = text.plain := by
  rcases run_cases ⟨.builtin, options⟩ source.toList origin with
    ⟨last, hlast, hrest, hrun⟩ | ⟨s, -, -, hstrict, -⟩
  · obtain ⟨last', hlast', hfollows⟩ := hlast.exists_follows unbroken_builtin hreturn hescaped
    have hrest' : last'.rest = [] := by rw [hfollows.rest_eq, hrest, crlf_nil]
    refine ⟨last.builder.build, last'.builder.build, ?_, ?_, hfollows.plain_eq⟩
    · rw [extract, hrun]
    · rw [extract, String.toList_ofList, hlast'.run_eq_finished hrest']
  -- a lenient extraction does not stop at a stall
  · rw [hlenient] at hstrict
    cases hstrict

/-- The command for a new line is a construct of its own, also before a line feed. -/
theorem line_breaks_are_alike_newline :
    ∃ text text',
      (extract ⟨.builtin, ⟨"de-DE", .rsweave, false⟩⟩ "a\\\\\nb" 0).result = .ok text ∧
      (extract ⟨.builtin, ⟨"de-DE", .rsweave, false⟩⟩
        (String.ofList (crlf "a\\\\\nb".toList)) 0).result = .ok text' ∧
      text'.plain = text.plain := by
  refine line_breaks_are_alike ⟨"de-DE", .rsweave, false⟩ rfl "a\\\\\nb" 0 (by decide) ?_
  intro s hs _ hstart
  have hleads := hs.leads_start (by decide)
  obtain ⟨front, hsource, -⟩ := hs.exists_append
  -- the only backslash before a line feed is the second one, inside the command
  have hinside : s.rest = ['\\', '\n', 'b'] := by
    have htails : ∀ rest ∈ "a\\\\\nb".toList.tails, ['\\', '\n'] <+: rest →
        rest = ['\\', '\n', 'b'] := by decide
    exact htails s.rest ((List.mem_tails _ _).mpr ⟨front, hsource.symm⟩) hstart
  have hfirst : Leads ⟨.builtin, ⟨"de-DE", .rsweave, false⟩⟩ (.start "a\\\\\nb".toList 0)
      (step ⟨.builtin, ⟨"de-DE", .rsweave, false⟩⟩ (.start "a\\\\\nb".toList 0)) :=
    leads_step (by decide) fun hstuck => absurd hstuck.1 (by decide)
  exact hfirst.not_inside (by decide +kernel) (by decide +kernel) ⟨s, hleads, hinside⟩

/-- Before a carriage return a backslash leaves the line feed behind. -/
theorem escaped_line_breaks_differ :
    ¬ ∀ (options : Options) (source : String) (origin : Nat), options.strict = false →
      '\r' ∉ source.toList →
      ∃ text text', (extract ⟨.builtin, options⟩ source origin).result = .ok text ∧
        (extract ⟨.builtin, options⟩ (String.ofList (crlf source.toList)) origin).result =
          .ok text' ∧
        text'.plain = text.plain := by
  intro h
  obtain ⟨text, text', hresult, hresult', hsame⟩ :=
    h ⟨"en-US", .latex, false⟩ "a\\\nb" 0 rfl (by decide)
  -- the command takes the line feed, and of the longer line break the first half only
  have hread : (extract ⟨.builtin, ⟨"en-US", .latex, false⟩⟩ "a\\\nb" 0).result.toOption.map
      AnnotatedText.plain = some "ab" := by decide +kernel
  have hread' : (extract ⟨.builtin, ⟨"en-US", .latex, false⟩⟩
      (String.ofList (crlf "a\\\nb".toList)) 0).result.toOption.map AnnotatedText.plain =
        some "a b" := by decide +kernel
  rw [hresult] at hread
  rw [hresult'] at hread'
  have hplain : text.plain = "ab" := Option.some.inj hread
  have hplain' : text'.plain = "a b" := Option.some.inj hread'
  rw [hplain, hplain'] at hsame
  exact absurd hsame (by decide)

end Extractor

end ProseLens
