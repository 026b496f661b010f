import Mathlib.Data.List.Find
import ProseLens.Proofs.Extract.Dispatch
import ProseLens.Proofs.Extract.Hidden
import ProseLens.Proofs.Signature.LineBreak

/-!
# Constructs with the other kind of line break

Two states mirror each other if they remember the same and have the same plain text, and the unread
text of one is that of the other with expanded line breaks.  A construct that is read from both
leaves them so: what it takes from the second text is the expansion of what it takes from the first,
and what it is read as depends on nothing that differs.

The one exception is a backslash before a line break, which is a control sequence of two characters
in both texts, so that the second one goes on with the line feed.

## Key results

- `Mirrors.remember`, `Mirrors.markup`, `Mirrors.markupAs`, `Mirrors.text`: what constructs are made
  of
- `mirrors_construct`: a construct in a mode that reads constructs
-/

namespace ProseLens

open Text

namespace Extract

namespace State

/-- `t` is `s` with expanded line breaks in what is unread, as far as the plain text can tell. -/
structure Mirrors (s t : State) : Prop where
  eq_expanded : ∃ builder events, t = { s with rest := crlf s.rest, builder, events } ∧
    builder.plain = s.builder.plain
  no_return : '\r' ∉ s.rest
  unbroken : ∀ terminator ∈ s.terminator, Unbroken terminator.command

namespace Mirrors

variable {s t : State} {n m : Nat}

/-- The unread text of one is that of the other with expanded line breaks. -/
theorem rest_eq (h : Mirrors s t) : t.rest = crlf s.rest := by
  obtain ⟨builder, events, rfl, -⟩ := h.eq_expanded
  rfl

/-- States that mirror each other have the same plain text. -/
theorem plain_eq (h : Mirrors s t) : t.builder.plain = s.builder.plain := by
  obtain ⟨builder, events, rfl, hplain⟩ := h.eq_expanded
  exact hplain

/-- What depends neither on what is unread nor on what is recorded is the same. -/
theorem same (h : Mirrors s t) {α : Type} (f : State → α)
    (hf : ∀ rest builder events, f { s with rest, builder, events } = f s) : f t = f s := by
  obtain ⟨builder, events, rfl, -⟩ := h.eq_expanded
  exact hf _ builder events

/-- States that mirror each other have the same modes. -/
theorem modes_eq (h : Mirrors s t) : t.modes = s.modes := h.same State.modes fun _ _ _ => rfl

theorem mode_eq (h : Mirrors s t) : t.mode = s.mode := h.same State.mode fun _ _ _ => rfl

/-- What is shown last is the same, so that spaces are asked for alike. -/
theorem trailing_eq (h : Mirrors s t) : t.trailing = s.trailing :=
  h.same State.trailing fun _ _ _ => rfl

/-- What waits is the same. -/
theorem pending_eq (h : Mirrors s t) : t.pending = s.pending :=
  h.same State.pending fun _ _ _ => rfl

/-- What is known of the formula is the same. -/
theorem formula_eq (h : Mirrors s t) : t.formula = s.formula :=
  h.same State.formula fun _ _ _ => rfl

/-- The terminator is the same. -/
theorem terminator_eq (h : Mirrors s t) : t.terminator = s.terminator :=
  h.same State.terminator fun _ _ _ => rfl

/-- Both begin with the same character, unless it is a line end. -/
theorem head?_iff (h : Mirrors s t) {c : Char} (hc : Token.isLineEnd c = false) :
    t.rest.head? = some c ↔ s.rest.head? = some c := by
  rw [h.rest_eq, head?_crlf_iff hc]

/-! ### What constructs are made of -/

/-- A change to what is remembered. -/
theorem remember (h : Mirrors s t) (f : State → State)
    (hf : ∀ rest builder events,
      f { s with rest, builder, events } = { f s with rest, builder, events })
    (hterminator : (f s).terminator = s.terminator) : Mirrors (f s) (f t) := by
  obtain ⟨⟨builder, events, rfl, hplain⟩, hreturn, hunbroken⟩ := h
  -- what is unread and recorded is not changed
  have hsame : f s = { f s with rest := s.rest, builder := s.builder, events := s.events } :=
    hf s.rest s.builder s.events
  have hrest : (f s).rest = s.rest := by rw [hsame]
  have hbuilder : (f s).builder = s.builder := by rw [hsame]
  refine ⟨⟨builder, events, ?_, ?_⟩, ?_, ?_⟩
  · rw [hf, hrest]
  · rw [hplain, hbuilder]
  · rwa [hrest]
  · rwa [hterminator]

theorem keepPending (h : Mirrors s t) : Mirrors s.keepPending t.keepPending :=
  h.remember State.keepPending (fun _ _ _ => rfl) rfl

theorem awaitSpace (h : Mirrors s t) : Mirrors s.awaitSpace t.awaitSpace :=
  h.remember State.awaitSpace (fun _ _ _ => rfl) rfl

theorem markTrivial (h : Mirrors s t) : Mirrors s.markTrivial t.markTrivial :=
  h.remember State.markTrivial (fun _ _ _ => rfl) rfl

/-- Entering a mode on both sides keeps the mirror. -/
theorem push (h : Mirrors s t) (mode : Mode) : Mirrors (s.push mode) (t.push mode) :=
  h.remember (·.push mode) (fun _ _ _ => rfl) rfl

/-- Leaving a mode on both sides keeps the mirror. -/
theorem pop (h : Mirrors s t) : Mirrors s.pop t.pop :=
  h.remember State.pop (fun _ _ _ => rfl) rfl

/-- Entering a formula on lines of its own keeps the mirror. -/
theorem enterDisplayMath (h : Mirrors s t) : Mirrors s.enterDisplayMath t.enterDisplayMath :=
  h.remember State.enterDisplayMath (fun _ _ _ => rfl) rfl

/-- Entering a formula within a line keeps the mirror. -/
theorem enterInlineMath (h : Mirrors s t) : Mirrors s.enterInlineMath t.enterInlineMath :=
  h.remember State.enterInlineMath (fun _ _ _ => rfl) rfl

/-- An ignored environment ends by a terminator without line breaks. -/
theorem ignoring (h : Mirrors s t) {terminator : Option Terminator}
    (hunbroken : ∀ known ∈ terminator, Unbroken known.command) :
    Mirrors { s with terminator } { t with terminator } := by
  obtain ⟨builder, events, rfl, hplain⟩ := h.eq_expanded
  exact ⟨⟨builder, events, rfl, hplain⟩, h.no_return, hunbroken⟩

/-- What is taken from both texts is taken from both or from neither. -/
private theorem take_eq_nil_iff (h : Mirrors s t) (hfits : Fits s.rest n m) :
    t.rest.take m = [] ↔ s.rest.take n = [] := by
  rw [h.rest_eq, hfits.take_eq, crlf_eq_nil_iff]

/-- After an emitter: what fits is taken from both texts, with the same plain text after it. -/
private theorem emitted (h : Mirrors s t) (hfits : Fits s.rest n m)
    {builder builder' : AnnotatedText.Builder} {trailing trailing' : Trailing}
    {pending pending' : Pending} (hplain : builder'.plain = builder.plain)
    (htrailing : trailing' = trailing) (hpending : pending' = pending) :
    Mirrors { s with rest := s.rest.drop n, builder, trailing, pending }
      { t with
        rest := t.rest.drop m
        builder := builder'
        trailing := trailing'
        pending := pending' } := by
  refine ⟨⟨builder', t.events, ?_, hplain⟩, ?_, h.unbroken⟩
  · obtain ⟨_, events, rfl, -⟩ := h.eq_expanded
    simp only [hfits.drop_eq, htrailing, hpending]
  · exact fun hmem => h.no_return (List.mem_of_mem_drop hmem)

/-- Markup of lengths that fit keeps the mirror. -/
theorem markup (h : Mirrors s t) (hfits : Fits s.rest n m) : Mirrors (s.markup n) (t.markup m) := by
  have hplain : (t.markup m).builder.plain = (s.markup n).builder.plain := by
    rw [plain_markup, plain_markup, h.plain_eq]
  -- nothing is taken on either side, or something on both
  by_cases hnone : s.rest.take n = []
  · have hsame : s.markup n = s := by simp [State.markup, hnone]
    have hsame' : t.markup m = t := by simp [State.markup, (h.take_eq_nil_iff hfits).mpr hnone]
    rwa [hsame, hsame']
  · have hnone' := mt (h.take_eq_nil_iff hfits).mp hnone
    rw [markup_eq _ _ hnone, markup_eq _ _ hnone'] at hplain ⊢
    exact h.emitted hfits hplain h.trailing_eq (by rw [h.pending_eq])

/-- Markup of lengths that fit keeps the mirror if both sides are read as the same. -/
theorem markupAs (h : Mirrors s t) (hfits : Fits s.rest n m) (read : String) :
    Mirrors (s.markupAs n read) (t.markupAs m read) := by
  -- a reading of nothing is markup that shows nothing
  by_cases hempty : read.isEmpty = true
  · have hmarkup (u : State) (k : Nat) : u.markupAs k read = u.markup k := if_pos hempty
    rw [hmarkup, hmarkup]
    exact h.markup hfits
  · rw [Bool.not_eq_true] at hempty
    by_cases hnone : s.rest.take n = []
    · have hsame : s.markupAs n read = s := by simp [State.markupAs, hnone, hempty]
      have hsame' : t.markupAs m read = t := by
        simp [State.markupAs, (h.take_eq_nil_iff hfits).mpr hnone, hempty]
      rwa [hsame, hsame']
    · have hnone' := mt (h.take_eq_nil_iff hfits).mp hnone
      have hplain : (t.markupAs m read).builder.plain = (s.markupAs n read).builder.plain := by
        rw [plain_markupAs _ _ _ hnone, plain_markupAs _ _ _ hnone', h.plain_eq]
      rw [markupAs_eq _ _ _ hnone hempty, markupAs_eq _ _ _ hnone' hempty] at hplain ⊢
      exact h.emitted hfits hplain (by rw [h.trailing_eq]) (by rw [h.pending_eq])

/-- Prose is the same in both texts as long as it stays on its line. -/
theorem text (h : Mirrors s t) (hline : OnLine s.rest n) : Mirrors (s.text n) (t.text n) := by
  -- text on one line has no line break to expand
  have htake : t.rest.take n = s.rest.take n := by
    rw [h.rest_eq, hline.fits.take_eq, crlf_of_not_mem hline.line]
  have hplain : (t.text n).builder.plain = (s.text n).builder.plain := by
    rw [plain_text, plain_text, h.plain_eq, htake]
  by_cases hnone : s.rest.take n = []
  · have hsame : s.text n = s := by simp [State.text, hnone]
    have hsame' : t.text n = t := by simp [State.text, htake, hnone]
    rwa [hsame, hsame']
  · rw [text_eq _ _ hnone, text_eq _ _ (by rwa [htake])] at hplain ⊢
    exact h.emitted hline.fits hplain (by rw [h.trailing_eq, htake]) h.pending_eq

/-- A placeholder for lengths that fit keeps the mirror: what stands in depends on what is
    remembered. -/
theorem replace (h : Mirrors s t) (hfits : Fits s.rest n m) (language : String) (p : Placeholder) :
    Mirrors (s.replace n language p) (t.replace m language p) := by
  have hstandIn : t.standIn language p = s.standIn language p :=
    h.same (·.standIn language p) fun _ _ _ => rfl
  unfold State.replace
  rw [hstandIn]
  exact (h.remember State.afterStandIn (fun _ _ _ => rfl) rfl).markupAs hfits _

end Mirrors

end State

/-! ## Arguments -/

/-- Arguments are swallowed one after the other. -/
theorem State.swallowArguments_eq (s : State) :
    s.swallowArguments =
      match Signature.anyArgument? s.rest with
      | none => s
      | some n => (s.markup n).swallowArguments := by
  show (argumentRun s.rest).foldl State.markup s = _
  rw [Signature.argumentRun_eq]
  cases Signature.anyArgument? s.rest with
  | none => rfl
  | some n =>
    show (argumentRun (s.rest.drop n)).foldl State.markup (s.markup n) =
      (argumentRun (s.markup n).rest).foldl State.markup (s.markup n)
    rw [rest_markup]

/-- Swallowing arguments keeps the mirror. -/
theorem State.Mirrors.swallowArguments {s t : State} (h : Mirrors s t) :
    Mirrors s.swallowArguments t.swallowArguments := by
  -- the induction is on what is unread, which every argument makes shorter
  induction hlength : s.rest.length using Nat.strongRecOn generalizing s t with
  | ind length ih =>
    have hargument := Signature.fits_anyArgument? s.rest
    have hpos {n : Nat} : Signature.anyArgument? s.rest = some n → 0 < n :=
      Signature.anyArgument?_pos
    rw [s.swallowArguments_eq, t.swallowArguments_eq, h.rest_eq]
    generalize Signature.anyArgument? s.rest = found,
      Signature.anyArgument? (crlf s.rest) = found' at hargument hpos
    cases hargument with
    | none => exact h
    | @some n m hfits =>
      refine ih _ ?_ (h.markup hfits) rfl
      have hle := hfits.le
      have hlt := hpos rfl
      rw [rest_markup, List.length_drop]
      omega

/-! ## Tags of environments -/

/-- `tag` and `tag'` are read from `cs` and from the expanded text. -/
structure EnvironmentTag.Mirrors (cs : List Char) (tag tag' : EnvironmentTag) : Prop where
  control_eq : tag'.control = tag.control
  onLine : OnLine cs tag.control
  fits : Fits (cs.drop tag.control) tag.group tag'.group
  name_eq : tag'.name = crlf tag.name
  mem_opening : ∀ c ∈ tag.name, c ∈ cs.take (tag.control + tag.group)
  terminator_eq : '\n' ∉ tag.name → tag'.terminator = tag.terminator
  unbroken : Unbroken tag.name → Unbroken tag.terminator.command

/-- A closing tag in braces has no line break unless its name has one. -/
theorem Terminator.unbroken_braced {name : List Char}
    (hname : Unbroken name) : Unbroken (braced name).command :=
  (show Unbroken "\\end\x7b".toList by decide).append hname |>.append (by decide)

/-- A closing tag with an attached name has no line break unless its name has one. -/
theorem Terminator.unbroken_attached {name : List Char}
    (hname : Unbroken name) : Unbroken (attached name).command :=
  (show Unbroken "\\stop".toList by decide).append hname

namespace EnvironmentTag

variable {cs : List Char} {tag tag' : EnvironmentTag}

/-- The name is attached to a control sequence on one line, or follows in braces. -/
theorem mirrors_read {n : Nat} (hline : OnLine cs n) {attached : Option (List Char)}
    (hattached : ∀ name ∈ attached, name ⊆ cs.take n) :
    Mirrors cs (read cs n attached) (read (crlf cs) n attached) := by
  cases attached with
  | some name =>
    have hsubset : name ⊆ cs.take n := hattached name rfl
    have hname : '\n' ∉ name := fun hmem => hline.line (hsubset hmem)
    exact ⟨rfl, hline, .zero _, (crlf_of_not_mem hname).symm, hsubset, fun _ => rfl,
      Terminator.unbroken_attached⟩
  | none =>
    rcases Token.group?_cases (cs.drop n) with ⟨hnone, hnone'⟩ | ⟨name, rest, hdrop, hname⟩
    · rw [← hline.fits.drop_eq] at hnone'
      have hread : read cs n none = ⟨n, 0, [], .braced []⟩ := by simp [read, hnone]
      have hread' : read (crlf cs) n none = ⟨n, 0, [], .braced []⟩ := by simp [read, hnone']
      rw [hread, hread']
      exact ⟨rfl, hline, .zero _, rfl, by simp, fun _ => rfl, Terminator.unbroken_braced⟩
    -- the tag has a name in braces, which may have line breaks in it
    · obtain ⟨front, rfl, rfl⟩ : ∃ front, cs = front ++ '{' :: (name ++ '}' :: rest) ∧
          n = front.length := by
        refine ⟨cs.take n, ?_, ?_⟩
        · rw [← hdrop, List.take_append_drop]
        · rw [List.length_take, Nat.min_eq_left hline.le]
      have hfront : '\n' ∉ front := by simpa using hline.line
      have hname' : '}' ∉ crlf name := mt (mem_crlf_iff rfl).mp hname
      have hfits := Token.fits_group? ('{' :: (name ++ '}' :: rest))
      rw [crlf_append, crlf_of_not_mem hfront, read_braced front rest hname]
      rw [crlf_cons (by decide), crlf_append, crlf_cons (by decide), Token.group?_append hname,
        Token.group?_append hname'] at hfits
      rw [crlf_cons (by decide), crlf_append, crlf_cons (by decide), read_braced front _ hname']
      cases hfits with
      | some hfits =>
        refine ⟨rfl, hline, ?_, rfl, ?_, ?_, Terminator.unbroken_braced⟩
        · rwa [List.drop_left]
        · intro c hc
          rw [take_tag]
          simp [hc]
        · intro hfeed
          rw [crlf_of_not_mem hfeed]

/-- The name of a formula has no line break. -/
theorem not_mem_of_isMath (h : tag.isMath = true) : '\n' ∉ tag.name := by
  have hnames : mathEnvironments.all (fun name => !name.toList.contains '\n') = true := by decide
  have hname := List.all_eq_true.mp hnames _ (List.elem_iff.mp h)
  simpa using hname

/-- The name of a formula has no line break to expand. -/
theorem Mirrors.name_eq_of_isMath (h : Mirrors cs tag tag') (hmath : tag.isMath = true) :
    tag'.name = tag.name := by
  rw [h.name_eq, crlf_of_not_mem (not_mem_of_isMath hmath)]

/-- A tag opens a formula in both texts or in neither. -/
theorem Mirrors.isMath_eq (h : Mirrors cs tag tag') : tag'.isMath = tag.isMath := by
  have hsame (hname : '\n' ∉ tag.name) : tag'.isMath = tag.isMath := by
    rw [isMath, isMath, h.name_eq, crlf_of_not_mem hname]
  -- the name of a formula has no line feed, and none comes from expanding another name
  cases hmath : tag'.isMath with
  | true =>
    have hname := not_mem_of_isMath hmath
    rw [h.name_eq] at hname
    rw [← hsame (mt mem_crlf_of_mem hname), hmath]
  | false =>
    cases hmath' : tag.isMath with
    | true => rw [← hmath, hsame (not_mem_of_isMath hmath'), hmath']
    | false => rfl

end EnvironmentTag

/-! ## Control sequences with a name attached -/

/-- Whether a name is attached. -/
private def Control.isAttached : Control → Bool
  | .opening (some _) | .closing (some _) => true
  | _ => false

/-- A name that is attached to a control sequence is a part of it. -/
theorem Control.subset_of_attached {token name : List Char}
    (h : ofToken token = .opening (some name) ∨ ofToken token = .closing (some name)) :
    name ⊆ token := by
  have hstrip {front rest : List Char} (hfront : stripFront? front token = some rest) :
      rest ⊆ token := by
    rw [stripFront?_eq_some_iff.mp hfront]
    exact List.subset_append_right front rest
  have htable : table.all (fun entry => !entry.2.isAttached) = true := by decide
  unfold ofToken at h
  split at h
  · next hfront =>
    simp only [opening.injEq, Option.some.injEq, reduceCtorEq, or_false] at h
    exact h ▸ hstrip hfront
  · split at h
    · next hfront =>
      simp only [closing.injEq, Option.some.injEq, reduceCtorEq, false_or] at h
      exact h ▸ hstrip hfront
    -- no entry of the table has a name attached
    · exfalso
      cases hlookup : table.lookup (String.ofList token) with
      | none => simp [hlookup] at h
      | some found =>
        obtain ⟨before, after, hsplit, -⟩ := List.lookup_eq_some_iff.mp hlookup
        have hmem : (String.ofList token, found) ∈ table := by
          rw [hsplit]
          simp
        have hfree := List.all_eq_true.mp htable _ hmem
        rw [hlookup, Option.getD_some] at h
        rcases h with rfl | rfl
        · exact nomatch hfree
        · exact nomatch hfree

end Extract

namespace Extractor

open Extract Extract.State

variable {x : Extractor} {s t : State} {n m : Nat}

/-! ## Environments -/

/-- The rest of an environment tag keeps the mirror. -/
theorem mirrors_finishTag {tag tag' : EnvironmentTag} (h : Mirrors s t)
    (hfits : Fits s.rest tag.group tag'.group) : Mirrors (s.finishTag tag) (t.finishTag tag') :=
  h.markTrivial.keepPending.markup hfits

/-- The opening of an environment that is no formula keeps the mirror. -/
theorem mirrors_openBody (hx : x.registry.Unbroken) (h : Mirrors s t) {tag tag' : EnvironmentTag}
    (htag : tag.Mirrors s.rest tag') : Mirrors (x.openBody s tag) (x.openBody t tag') := by
  have hwhole := htag.onLine.fits.add htag.fits
  have hopening : t.rest.take (tag'.control + tag'.group) =
      crlf (s.rest.take (tag.control + tag.group)) := by
    rw [htag.control_eq, h.rest_eq, hwhole.take_eq]
  have hfound := Signature.Registry.rel_environment? hx
    (s.rest.take (tag.control + tag.group)) s.rest
  unfold openBody
  dsimp only
  rw [hopening, h.rest_eq, htag.control_eq, h.mode_eq]
  generalize x.registry.environment? (String.ofList (s.rest.take (tag.control + tag.group)))
      s.rest = found,
    x.registry.environment? (String.ofList (crlf (s.rest.take (tag.control + tag.group))))
      (crlf s.rest) = found' at hfound
  have hcontrol {u v : State} (h : Mirrors u v) (hrest : u.rest = s.rest) :
      Mirrors (u.markup tag.control) (v.markup tag.control) :=
    h.markup (by rw [hrest]; exact htag.onLine.fits)
  have hgroup {u : State} (hrest : u.rest = s.rest) :
      Fits (u.markup tag.control).rest tag.group tag'.group := by
    rw [rest_markup, hrest]
    exact htag.fits
  cases hfound with
  | none =>
    refine (mirrors_finishTag ((hcontrol h rfl).push s.mode) ?_).swallowArguments
    exact hgroup rfl
  | @some found found' hfound =>
    obtain ⟨hmatch, hline⟩ := hfound
    dsimp only
    rw [hmatch.signature_eq]
    have hpush := h.push s.mode
    split
    · -- the opening is on file, so that its name has no line break
      have hname : Unbroken tag.name :=
        fun c hc => hline c (htag.mem_opening c hc)
      rw [htag.terminator_eq hname.not_mem]
      refine ((h.push .ignoredEnvironment).ignoring ?_).markup ?_
      · rintro terminator ⟨⟩
        exact htag.unbroken hname
      · split
        · exact htag.onLine.fits
        · exact hmatch.fits
    · split
      · exact (mirrors_finishTag (hcontrol hpush rfl) (hgroup rfl)).swallowArguments
      · exact (hpush.markup hmatch.fits).markTrivial.keepPending

/-- The opening of an environment keeps the mirror. -/
theorem mirrors_openEnvironment (hx : x.registry.Unbroken) (h : Mirrors s t)
    {tag tag' : EnvironmentTag} (htag : tag.Mirrors s.rest tag') :
    Mirrors (x.openEnvironment s tag) (x.openEnvironment t tag') := by
  have hmarkup := h.keepPending.markup htag.onLine.fits
  have hgroup : Fits (s.keepPending.markup tag.control).rest tag.group tag'.group := by
    rw [rest_markup]
    exact htag.fits
  unfold openEnvironment
  dsimp only
  rw [htag.isMath_eq, htag.control_eq]
  split
  -- the name is in the table and so the same in both texts
  · next hmath =>
    rw [htag.name_eq_of_isMath hmath]
    split
    · exact (mirrors_finishTag hmarkup.enterInlineMath hgroup).swallowArguments
    · exact (mirrors_finishTag hmarkup.enterDisplayMath hgroup).swallowArguments
  · exact mirrors_openBody hx h.keepPending htag

/-- The closing of an environment keeps the mirror. -/
theorem mirrors_closeEnvironment (h : Mirrors s t) {tag tag' : EnvironmentTag}
    (htag : tag.Mirrors s.rest tag') :
    Mirrors (x.closeEnvironment s tag) (x.closeEnvironment t tag') := by
  have hmarkup := h.keepPending.markup htag.onLine.fits
  -- the command is recorded first, and the group fits what is left then
  have hgroup : Fits (s.keepPending.markup tag.control).rest tag.group tag'.group := by
    rw [rest_markup]
    exact htag.fits
  unfold closeEnvironment
  dsimp only
  rw [htag.isMath_eq, htag.control_eq]
  split
  · exact h.keepPending.pop.markTrivial.replace (htag.onLine.fits.add htag.fits) _ _
  · exact mirrors_finishTag hmarkup.pop hgroup

/-! ## Control sequences -/

/-- A control sequence that stands for a space keeps the mirror. -/
theorem mirrors_space (h : Mirrors s t) (hfits : Fits s.rest n m) (read : String) :
    Mirrors (space s n read) (space t m read) := by
  unfold space
  rw [h.mode_eq, h.trailing_eq, h.formula_eq]
  split
  · split
    · exact h.markupAs hfits _
    · exact (h.keepPending.markup hfits).awaitSpace
  · exact h.keepPending.markupAs hfits _

/-- The short title of a heading keeps the mirror. -/
theorem mirrors_shortTitle (h : Mirrors s t) : Mirrors (shortTitle s) (shortTitle t) := by
  have hargument := Signature.fits_argument? .bracket s.rest
  unfold shortTitle
  rw [h.rest_eq]
  generalize Signature.argument? .bracket s.rest = found,
    Signature.argument? .bracket (crlf s.rest) = found' at hargument
  cases hargument with
  | none => exact h
  | some hfits => exact h.markup hfits

/-- The brace before a title keeps the mirror. -/
theorem mirrors_title (h : Mirrors s t) : Mirrors (title s) (title t) := by
  unfold title
  simp only [h.head?_iff (c := '{') rfl]
  split
  · next hbrace => exact (h.push .heading).markup (OnLine.one (by decide) hbrace).fits
  · exact h

/-- A heading keeps the mirror. -/
theorem mirrors_heading (h : Mirrors s t) (hline : OnLine s.rest n) :
    Mirrors (heading s n) (heading t n) :=
  mirrors_title (mirrors_shortTitle (h.markup hline.fits))

/-- The command before prose in a formula keeps the mirror. -/
theorem mirrors_inlineText (h : Mirrors s t) (hline : OnLine s.rest n) :
    Mirrors (x.inlineText s n) (x.inlineText t n) := by
  unfold inlineText
  rw [h.rest_eq, hline.fits.drop_eq]
  simp only [head?_crlf_iff (c := '{') rfl]
  split
  -- the brace is taken along with the command
  · next hbrace =>
    have hfits := (hline.add (.one (by decide) hbrace)).fits
    have hmode : (t.push .inlineText).mode = (s.push .inlineText).mode := h.mode_eq
    rw [hmode]
    split
    · exact (h.push .inlineText).replace hfits _ _
    · exact (h.push .inlineText).markup hfits
  · exact h.markup hline.fits

/-- A command keeps the mirror: its signature matches the expanded text as far as it matches the
    other. -/
theorem mirrors_command (h : Mirrors s t) {token : List Char}
    (htoken : Unbroken token) (hline : OnLine s.rest token.length) :
    Mirrors (x.command s token) (x.command t token) := by
  have hplain := (h.remember
    (fun u => { u with formula := { u.formula with
      lead := if u.mode.isMath then leadAfter u.formula.lead (String.ofList token)
        else u.formula.lead } }) (fun _ _ _ => rfl) rfl).markup hline.fits
  have hname : Unbroken (String.ofList token).toList := by
    rwa [String.toList_ofList]
  have hfound := x.registry.rel_command? hname s.rest
  rw [← h.rest_eq] at hfound
  unfold command
  dsimp only
  generalize x.registry.command? (String.ofList token) s.rest = found,
    x.registry.command? (String.ofList token) t.rest = found' at hfound
  cases hfound with
  | none => exact hplain
  | some hmatch =>
    -- both texts have the same signature, which says what becomes of the command
    dsimp only
    rw [hmatch.signature_eq]
    split
    · exact h.markup hmatch.fits
    · exact h.replace hmatch.fits _ _
    · exact hplain

/-- A control sequence keeps the mirror if it stands on one line. -/
theorem mirrors_control (hx : x.registry.Unbroken) (h : Mirrors s t) (hline : OnLine s.rest n) :
    Mirrors (x.control s (s.rest.take n)) (x.control t (s.rest.take n)) := by
  have hlength : (s.rest.take n).length = n := by
    rw [List.length_take, Nat.min_eq_left hline.le]
  have htag {attached : Option (List Char)} (hattached : ∀ name ∈ attached, name ⊆ s.rest.take n) :
      (EnvironmentTag.read s.rest n attached).Mirrors s.rest (.read t.rest n attached) := by
    rw [h.rest_eq]
    exact EnvironmentTag.mirrors_read hline hattached
  -- the token is the same in both texts, and with it the kind of control sequence
  unfold control
  dsimp only
  rw [hlength, h.mode_eq]
  cases hcontrol : Control.ofToken (s.rest.take n) with
  | opening attached =>
    refine mirrors_openEnvironment hx h (htag ?_)
    rintro name rfl
    exact Control.subset_of_attached (.inl hcontrol)
  | closing attached =>
    refine mirrors_closeEnvironment h (htag ?_)
    rintro name rfl
    exact Control.subset_of_attached (.inr hcontrol)
  | escaped c => exact h.markupAs hline.fits _
  | displayMath => exact h.enterDisplayMath.markup hline.fits
  | inlineMath => exact h.enterInlineMath.markup hline.fits
  | mathEnd => exact h.pop.replace hline.fits _ _
  | hyphenation => exact h.markup hline.fits
  | mark => exact h.keepPending.markup hline.fits
  | inlineText => exact mirrors_inlineText h hline
  | verbatim =>
    rw [h.rest_eq, Token.verbatim?_crlf]
    dsimp only
    split
    · next hverbatim => exact h.replace (Token.onLine_verbatim? hverbatim).fits _ _
    · exact h.markup hline.fits
  | accent =>
    rw [h.rest_eq, Token.accent?_crlf]
    dsimp only
    split
    · next accent haccent =>
      split at haccent
      · cases haccent
      · exact h.markupAs (Token.onLine_accent? haccent).fits _
    · exact h.markup hline.fits
  | space read measured =>
    refine mirrors_space h (hline.fits.add ?_) read
    cases measured with
    | false => exact .zero _
    | true =>
      have hgroup := Token.fits_group? (s.rest.drop n)
      rw [← hline.fits.drop_eq, ← h.rest_eq] at hgroup
      simp only [if_true]
      generalize Token.group? (s.rest.drop n) = found, Token.group? (t.rest.drop n) = found'
        at hgroup
      cases hgroup with
      | none => exact .zero _
      | some hfits => exact hfits
  | heading => exact mirrors_heading h hline
  | word read => exact h.markupAs hline.fits _
  | other =>
    -- the signatures are filed under names without line breaks
    refine mirrors_command h ?_ (by rwa [hlength])
    intro c hc
    have hreturn : c ≠ '\r' := by
      rintro rfl
      exact h.no_return (List.mem_of_mem_take hc)
    have hfeed : c ≠ '\n' := by
      rintro rfl
      exact hline.line hc
    simp [Token.isLineEnd, hreturn, hfeed]

/-- What begins with a backslash, unless a line break follows. -/
theorem mirrors_backslash (hx : x.registry.Unbroken) (h : Mirrors s t)
    (hescaped : ¬ ['\\', '\n'] <+: s.rest) : Mirrors (x.backslash s) (x.backslash t) := by
  unfold backslash
  rw [h.rest_eq, Token.control?_crlf hescaped]
  split
  · next n hn =>
    have hline := Token.onLine_control? hescaped hn
    rw [hline.fits.take_eq, crlf_of_not_mem hline.line]
    exact mirrors_control hx h hline
  · exact h

/-! ## Other characters -/

section Characters

variable {c : Char} {cs : List Char}

/-- The character that begins a construct, unless it is a line break. -/
private theorem onLine_head (hrest : s.rest = c :: cs) (hc : c ≠ '\n') : OnLine s.rest 1 :=
  .one hc (by rw [hrest]; rfl)

/-- An opening brace keeps the mirror. -/
theorem mirrors_openBrace (h : Mirrors s t) (hrest : s.rest = '{' :: cs) :
    Mirrors (openBrace s) (openBrace t) := by
  unfold openBrace
  rw [h.rest_eq, Token.dimension?_crlf rfl rfl, Token.accentGroup?_crlf, h.mode_eq]
  split
  · next hdimension => exact h.markup (Token.onLine_dimension? rfl rfl hdimension).fits
  · split
    · next haccent => exact h.markupAs (Token.onLine_accentGroup? haccent).fits _
    · exact (h.push s.mode).markup (onLine_head hrest (by decide)).fits

/-- A closing brace keeps the mirror. -/
theorem mirrors_closeBrace (h : Mirrors s t) (hrest : s.rest = '}' :: cs) :
    Mirrors (closeBrace s) (closeBrace t) := by
  have hfits := (onLine_head hrest (by decide)).fits
  -- only the character behind the brace is asked for, and whether it opens a group
  have hread : closeBraceRead t = closeBraceRead s := by
    unfold closeBraceRead
    rw [h.mode_eq, h.trailing_eq, h.rest_eq, hfits.drop_eq]
    simp only [head?_crlf_iff (c := '{') rfl]
  unfold closeBrace
  rw [hread, h.mode_eq]
  exact (h.pop.markupAs hfits _).remember
    (fun u => { u with
      formula := { u.formula with
        spaceBefore := true
        empty := u.formula.empty || (s.mode.isText && u.modes.top.isMath) }
      trivial := true }) (fun _ _ _ => rfl) rfl

/-- Dollar signs keep the mirror. -/
theorem mirrors_dollar (h : Mirrors s t) (hrest : s.rest = '$' :: cs) :
    Mirrors (x.dollar s) (x.dollar t) := by
  unfold dollar
  rw [h.rest_eq, startsWith_crlf (by decide), h.mode_eq]
  split
  · next hdollars =>
    -- two dollars have no line break between them
    have hfits : Fits s.rest 2 2 := by
      obtain ⟨rest, hrest⟩ := startsWith_iff.mp hdollars
      rw [hrest]
      exact (OnLine.of_append (show '\n' ∉ ['$', '$'] by decide) rest).fits
    split
    · exact h.pop.replace hfits _ _
    · exact h.enterDisplayMath.markup hfits
  · have hfits := (onLine_head hrest (by decide)).fits
    split
    · exact h.pop.replace hfits _ _
    · exact h.enterInlineMath.markup hfits

/-- A blank line in what is taken from both texts. -/
private theorem hasBlankLine_eq (h : Mirrors s t) (hfits : Fits s.rest n m) :
    Token.hasBlankLine (t.rest.take m) = Token.hasBlankLine (s.rest.take n) := by
  rw [h.rest_eq, hfits.take_eq, Token.hasBlankLine_crlf]
  exact fun hmem => h.no_return (List.mem_of_mem_take hmem)

/-- A comment keeps the mirror: it takes the whole line break on either side. -/
theorem mirrors_percent (h : Mirrors s t) (hrest : s.rest = '%' :: cs) :
    Mirrors (percent s) (percent t) := by
  have hfits : Fits s.rest ((Token.comment? s.rest).getD 1) ((Token.comment? t.rest).getD 1) := by
    have hcomment := Token.fits_comment? s.rest
    rw [← h.rest_eq] at hcomment
    -- where one text has no comment the other has none, and the sign alone is taken
    generalize Token.comment? s.rest = found, Token.comment? t.rest = found' at hcomment
    cases hcomment with
    | none => exact (onLine_head hrest (by decide)).fits
    | some hfits => exact hfits
  unfold percent
  dsimp only
  rw [hasBlankLine_eq h hfits]
  exact h.keepPending.markTrivial.markupAs hfits _

/-- A run of blanks begins with the carriage return that stands before the line feed. -/
theorem mirrors_blank {c' : Char} (h : Mirrors s t) (hrest : s.rest = c :: cs)
    (htie : c' = '~' ↔ c = '~') (halign : c' = '&' ↔ c = '&') :
    Mirrors (blank s c) (blank t c') := by
  have hsingle : (c' == '~' || c' == '&') = (c == '~' || c == '&') := by
    rw [Bool.eq_iff_iff]
    simp [htie, halign]
  have hfits : Fits s.rest
      (if (c == '~' || c == '&') = true then 1 else (Token.blanks? s.rest).getD 1)
      (if (c == '~' || c == '&') = true then 1 else (Token.blanks? t.rest).getD 1) := by
    split
    · next hmark =>
      refine (onLine_head hrest ?_).fits
      rintro rfl
      exact absurd hmark (by decide)
    · have hblanks := Token.fits_blanks? s.rest
      -- at a line feed there is a run of blanks, however short
      have hfeed : c = '\n' → Token.blanks? s.rest ≠ none := by
        rintro rfl
        simp [hrest, Token.blanks?, Token.isBlank, Token.isLineEnd]
      rw [← h.rest_eq] at hblanks
      generalize Token.blanks? s.rest = found, Token.blanks? t.rest = found' at hblanks hfeed
      cases hblanks with
      | none => exact (onLine_head hrest fun hc => hfeed hc rfl).fits
      | some hfits => exact hfits
  unfold blank
  dsimp only
  rw [hsingle]
  generalize (if (c == '~' || c == '&') = true then 1 else (Token.blanks? s.rest).getD 1) = n,
    (if (c == '~' || c == '&') = true then 1 else (Token.blanks? t.rest).getD 1) = m at hfits ⊢
  rw [hasBlankLine_eq h hfits, h.trailing_eq]
  simp only [htie]
  have hkept := h.keepPending.markTrivial
  have hmode : t.keepPending.markTrivial.mode = s.keepPending.markTrivial.mode := h.mode_eq
  have hread (read : String) : Mirrors
      (if s.keepPending.markTrivial.mode.isText = true then
        s.keepPending.markTrivial.markupAs n read else s.keepPending.markTrivial.markup n)
      (if t.keepPending.markTrivial.mode.isText = true then
        t.keepPending.markTrivial.markupAs m read else t.keepPending.markTrivial.markup m) := by
    rw [hmode]
    split
    · exact hkept.markupAs hfits read
    · exact hkept.markup hfits
  split
  · exact (hread _).awaitSpace
  · exact hread _

/-- A character with no meaning of its own keeps the mirror unless it is a line feed. -/
theorem mirrors_plainCharacter (h : Mirrors s t) (hrest : s.rest = c :: cs) (hc : c ≠ '\n') :
    Mirrors (plainCharacter s c) (plainCharacter t c) := by
  have hline := onLine_head hrest hc
  unfold plainCharacter
  rw [h.mode_eq]
  split
  · exact h.text hline
  -- in a formula the character is markup and leaves its sound behind
  · exact (h.markup hline.fits).remember
      (fun u => { u with
        pending := { u.pending with
          punctuation := if isPunctuation c then some c else u.pending.punctuation }
        formula := { u.formula with
          lead := u.formula.lead.orElse (if hasVowelName c then .vowel else .consonant) } })
      (fun _ _ _ => rfl) rfl

/-- A quotation mark keeps the mirror, with its partner or without. -/
theorem mirrors_quotationMark (h : Mirrors s t) (hrest : s.rest = c :: cs) (hc : c ≠ '\n') :
    Mirrors (quotationMark s c) (quotationMark t c) := by
  have hpair : ∀ entry ∈ digraphs, entry.1.length = 2 ∧ Unbroken entry.1 := by decide
  unfold quotationMark
  rw [h.mode_eq]
  split
  -- the same pair is found on both sides
  · generalize hfound' : digraphs.find? _ = found', hfound : digraphs.find? _ = found
    have heq : found' = found := by
      rw [← hfound, ← hfound']
      refine List.find?_congr fun entry hentry => ?_
      show startsWith t.rest entry.1 = startsWith s.rest entry.1
      rw [h.rest_eq, startsWith_crlf (hpair entry hentry).2]
    rw [heq]
    cases found with
    | none => exact mirrors_plainCharacter h hrest hc
    | some entry =>
      have hentry := hpair entry (List.mem_of_find?_eq_some hfound)
      have hstarts : startsWith s.rest entry.1 = true :=
        List.find?_some (p := fun entry : List Char × String => startsWith s.rest entry.1) hfound
      obtain ⟨rest, hrest⟩ := startsWith_iff.mp hstarts
      have hline := OnLine.of_append hentry.2.not_mem rest
      rw [← hrest, hentry.1] at hline
      exact h.markupAs hline.fits entry.2
  · exact h.markup (onLine_head hrest hc).fits

/-- Dashes, lengths in brackets, chunk openings and plain characters keep the mirror. -/
theorem mirrors_otherCharacter (h : Mirrors s t) (hrest : s.rest = c :: cs) (hc : c ≠ '\n') :
    Mirrors (x.otherCharacter s c) (x.otherCharacter t c) := by
  -- hyphens stand on one line
  have hdashes {front : List Char} (hfront : '\n' ∉ front)
      (hstarts : startsWith s.rest front = true) : Fits s.rest front.length front.length := by
    obtain ⟨rest, hrest⟩ := startsWith_iff.mp hstarts
    rw [hrest]
    exact (OnLine.of_append hfront rest).fits
  unfold otherCharacter
  rw [h.rest_eq, h.mode_eq, startsWith_crlf (by decide), startsWith_crlf (by decide),
    Token.dimension?_crlf rfl rfl, Token.chunkOpener?_crlf]
  split
  · next hthree => exact h.markupAs (hdashes (by decide) hthree.2.2) _
  · split
    · next htwo => exact h.markupAs (hdashes (by decide) htwo.2.2) _
    · dsimp only
      split
      · next n hdimension =>
        split at hdimension
        · exact h.markTrivial.keepPending.markup
            (Token.onLine_dimension? rfl rfl hdimension).fits
        · cases hdimension
      · next n _ hchunk =>
        split at hchunk
        · exact (h.push .embeddedCodeChunk).markup (Token.onLine_chunkOpener? hchunk).fits
        · cases hchunk
      · exact mirrors_plainCharacter h hrest hc

end Characters

/-! ## Steps that read constructs -/

/-- A construct in a mode that reads constructs.  The text with expanded line breaks has a carriage
    return where the other one has a line feed. -/
theorem mirrors_construct (hx : x.registry.Unbroken) (h : Mirrors s t)
    (hfree : s.mode.isOpaque = false) (hescaped : ¬ ['\\', '\n'] <+: s.rest) {c c' : Char}
    {cs cs' : List Char} (hrest : s.rest = c :: cs) (hrest' : t.rest = c' :: cs') :
    Mirrors (x.construct s c) (x.construct t c') := by
  have hfree' : t.mode.isOpaque = false := by rw [h.mode_eq, hfree]
  rw [h.rest_eq, hrest] at hrest'
  -- a line feed faces a carriage return, and both begin a run of blanks
  by_cases hc : c = '\n'
  · subst hc
    obtain ⟨rfl, -⟩ := List.cons.inj hrest'
    rw [construct_blank hfree (by decide), construct_blank hfree' (by decide)]
    exact mirrors_blank h hrest (by decide) (by decide)
  · rw [crlf_cons hc] at hrest'
    obtain ⟨rfl, -⟩ := List.cons.inj hrest'
    rw [construct_of_free hfree, construct_of_free hfree']
    split
    · exact mirrors_backslash hx h hescaped
    · exact mirrors_openBrace h hrest
    · exact mirrors_closeBrace h hrest
    · exact mirrors_dollar h hrest
    · exact mirrors_percent h hrest
    · exact mirrors_blank h hrest Iff.rfl Iff.rfl
    · exact mirrors_blank h hrest Iff.rfl Iff.rfl
    · exact mirrors_blank h hrest Iff.rfl Iff.rfl
    · exact mirrors_blank h hrest Iff.rfl Iff.rfl
    · exact mirrors_blank h hrest Iff.rfl Iff.rfl
    · exact mirrors_blank h hrest Iff.rfl Iff.rfl
    · exact mirrors_quotationMark h hrest hc
    · exact mirrors_quotationMark h hrest hc
    · exact mirrors_quotationMark h hrest hc
    · exact mirrors_otherCharacter h hrest hc

end Extractor

end ProseLens
