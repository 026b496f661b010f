import ProseLens.Proofs.Extract.History
import ProseLens.Proofs.Extract.InlineFormula
import ProseLens.Proofs.Extract.OpaqueRegion

/-!
# Words before a construct

Letters are read as they are, and so are single spaces between words.  What is remembered after such
words is the same as before them, except for how the plain text ends.

## Key results

- `leads_prose`: words with single spaces between them are read as they are
-/

namespace ProseLens

/-- In front of something visible, the blanks at the beginning of a simple text are one run. -/
theorem Token.blanks?_append {body next : List Char} (hbody : body.all Text.isSimple = true)
    (hnext : next.head?.any (fun c => !isBlank c && c != '%') = true)
    (hblank : body.head?.any isBlank = true) :
    blanks? (body ++ next) = some (body.takeWhile isBlank).length := by
  have hstop : next.takeWhile isBlank = [] := by
    cases next with
    | nil => rfl
    | cons c next =>
      have hc : isBlank c = false ∧ c ≠ '%' := by simpa using hnext
      exact List.takeWhile_cons_of_neg (by simp [hc.1])
  have hrun : (body ++ next).takeWhile isBlank = body.takeWhile isBlank := by
    rw [List.takeWhile_append, hstop, List.append_nil]
    split
    · next hall => exact ((List.takeWhile_prefix _).eq_of_length hall).symm
    · rfl
  have hpos : (body.takeWhile isBlank).length ≠ 0 := by
    cases body with
    | nil => simp at hblank
    | cons c body =>
      rw [List.takeWhile_cons_of_pos (by simpa using hblank)]
      simp
  -- neither the body nor what follows it goes on with a comment
  have hcomment : commentLength ((body ++ next).drop (body.takeWhile isBlank).length) = 0 := by
    have hhead : ((body ++ next).drop (body.takeWhile isBlank).length).head? ≠ some '%' := by
      rw [List.drop_append_of_le_length (List.takeWhile_prefix _).length_le,
        drop_length_takeWhile]
      intro hpercent
      cases hrest : body.dropWhile isBlank with
      | nil =>
        rw [hrest, List.nil_append] at hpercent
        simp [hpercent] at hnext
      | cons c rest =>
        rw [hrest, List.cons_append] at hpercent
        have hmem : c ∈ body := (List.dropWhile_suffix isBlank).subset (by simp [hrest])
        have hsimple := List.all_eq_true.mp hbody c hmem
        rw [Option.some.inj hpercent] at hsimple
        exact absurd hsimple (by decide)
    unfold commentLength comment?
    split
    · next heq => exact absurd (by rw [heq]; rfl) hhead
    · rfl
  simp only [blanks?, hrun, if_neg hpos, hcomment, Nat.add_zero]

namespace Extractor

open Extract State

variable {x : Extractor} {s t : State} {cs : List Char}

/-- The extraction of `source` succeeds with this plain text. -/
def ReadsAs (x : Extractor) (source : List Char) (plain : String) : Prop :=
  ∀ origin, ∃ text, (x.extract (String.ofList source) origin).result = .ok text ∧
    text.plain = plain

/-- A step does not stall where more than one character is unread. -/
theorem leads_step_before {body : List Char} (hcs : cs ≠ []) (hbody : body ≠ [])
    (hrest : t.rest = body ++ cs) : x.Leads t (x.step t) := by
  obtain ⟨c, more, rfl⟩ := List.exists_cons_of_ne_nil hbody
  refine leads_step (by simp [hrest]) ?_
  rintro ⟨hlone, -⟩
  rw [hrest, List.cons_append] at hlone
  exact hcs (List.append_eq_nil_iff.mp (List.cons.inj hlone).2).2

/-- `t` comes from `s` by reading `words` as they are. -/
structure Told (s t : State) (words : List Char) : Prop where
  plain_eq : t.builder.plain = s.builder.plain ++ String.ofList words
  trailing_eq : t.trailing = s.trailing.after words
  placeholders_eq : t.placeholders = s.placeholders
  modes_eq : t.modes = s.modes
  pending_eq : t.pending = {}

/-- Words are told character by character. -/
theorem Told.cons {u : State} {c : Char} {words : List Char} (h : Told s t [c])
    (h' : Told t u words) : Told s u (c :: words) where
  plain_eq := by
    rw [h'.plain_eq, h.plain_eq, String.append_assoc, ← String.ofList_append]
    rfl
  trailing_eq := by
    rw [h'.trailing_eq, h.trailing_eq, ← Trailing.after_append, List.singleton_append]
  placeholders_eq := h'.placeholders_eq.trans h.placeholders_eq
  modes_eq := h'.modes_eq.trans h.modes_eq
  pending_eq := h'.pending_eq

section Prose

variable (hprose : s.modes.top = .paragraphText) (hpending : s.pending = {})

include hprose hpending

/-- A letter in prose is told as it is. -/
theorem step_letter {c : Char} (hc : c.isAlpha = true) (hrest : s.rest = c :: cs) :
    Told s (x.step s) [c] ∧ (x.step s).rest = cs := by
  have hfree : (begun s).mode.isOpaque = false := by rw [mode_begun, hprose]; rfl
  have htext : (begun s).mode.isText = true := by rw [mode_begun, hprose]; rfl
  have hother : c ∉ Text.specials ++ ['\x60', '\x27', '\x22'] :=
    Text.not_mem_of_class (by decide) hc
  have hdistinct : c ≠ '-' ∧ c ≠ '[' ∧ c ≠ '<' := by
    refine ⟨?_, ?_, ?_⟩ <;> rintro rfl <;> exact absurd hc (by decide)
  have hplain : x.otherCharacter (begun s) c = plainCharacter (begun s) c := by
    simp [otherCharacter, hdistinct]
  have hstep : x.step s = settle ((begun s).text 1) := by
    rw [step_eq_settle hrest, construct_other hfree hother, hplain, plainCharacter, if_pos htext]
  have htake : (begun s).rest.take 1 = [c] := by rw [rest_begun, hrest]; rfl
  have hne : (begun s).rest.take 1 ≠ [] := by
    rw [htake]
    exact List.cons_ne_nil c []
  -- a letter makes the formula around it one that shows something
  have hsettle : settle ((begun s).text 1) = { (begun s).text 1 with
      formula := { ((begun s).text 1).formula with empty := false, spaceBefore := false } } := by
    rw [text_eq _ 1 hne]
    rfl
  rw [hstep]
  refine ⟨⟨?_, ?_, ?_, ?_, ?_⟩, ?_⟩
  · rw [builder_settle, plain_text, htake]
    rfl
  · rw [hsettle, text_eq _ 1 hne, htake]
    rfl
  · rw [hsettle]
    exact placeholders_text _ 1
  · rw [modes_settle, modes_text, modes_begun]
  · rw [hsettle]
    exact (pending_text _ 1).trans hpending
  · rw [rest_settle, rest_text, rest_begun, hrest]
    rfl

/-- A single space between two words, or after them. -/
theorem step_space (hnext : cs.head?.any (fun c => !Token.isBlank c && c != '%') = true)
    (hspace : s.trailing.space = false) (hrest : s.rest = ' ' :: cs) :
    Told s (x.step s) [' '] ∧ (x.step s).rest = cs := by
  have hfree : (begun s).mode.isOpaque = false := by rw [mode_begun, hprose]; rfl
  have htext : (begun s).keepPending.markTrivial.mode.isText = true := by
    show (begun s).mode.isText = true
    rw [mode_begun, hprose]
    rfl
  -- the run is the one space, since what follows is visible
  have hrun : Token.blanks? (begun s).rest = some 1 := by
    rw [rest_begun, hrest]
    show Token.blanks? ([' '] ++ cs) = some 1
    exact Token.blanks?_append (by decide) hnext rfl
  have htake : (begun s).keepPending.markTrivial.rest.take 1 = [' '] := by
    show s.rest.take 1 = [' ']
    rw [hrest]
    rfl
  have hspace' : ¬ (begun s).trailing.space = true := by
    rw [Bool.not_eq_true]
    exact hspace
  have hbreak : Token.hasBlankLine ((begun s).rest.take 1) = false := by
    rw [rest_begun, hrest]
    rfl
  have hsingle : (' ' == '~' || ' ' == '&') = false := rfl
  have hspace'' : ¬ ' ' = '~' := by decide
  have hstep : x.step s = settle ((begun s).keepPending.markTrivial.markupAs 1 " ") := by
    rw [step_eq_settle hrest, construct_blank hfree rfl, blank]
    simp only [hrun, hbreak, htext, hsingle, Option.getD_some, if_true, if_false,
      Bool.false_eq_true, if_neg hspace', if_neg hspace'']
  have hne : (begun s).keepPending.markTrivial.rest.take 1 ≠ [] := by
    rw [htake]
    exact List.cons_ne_nil ' ' []
  -- a blank is trivial, so that nothing is remembered after it
  have hsettle : settle ((begun s).keepPending.markTrivial.markupAs 1 " ") =
      (begun s).keepPending.markTrivial.markupAs 1 " " := by
    rw [settle, if_pos]
    rw [markupAs_eq _ 1 " " hne rfl]
    rfl
  rw [hstep, hsettle]
  refine ⟨⟨?_, ?_, placeholders_markupAs _ 1 _, modes_markupAs _ 1 _, ?_⟩, ?_⟩
  · rw [plain_markupAs _ 1 _ hne]
    rfl
  · rw [markupAs_eq _ 1 " " hne rfl]
    rfl
  · rw [markupAs_eq _ 1 " " hne rfl]
    show { s.pending with kept := false } = ({} : Pending)
    rw [hpending]
  · rw [rest_markupAs]
    show s.rest.drop 1 = cs
    rw [hrest]
    rfl

/-- Words with single spaces between them are read as they are. -/
theorem leads_prose {words : List Char} (hwords : ∀ c ∈ words, c.isAlpha = true ∨ c = ' ')
    (hsingle : ¬ [' ', ' '] <:+: words)
    (hfirst : s.trailing.space = true → words.head? ≠ some ' ')
    (hnext : cs.head?.any (fun c => !Token.isBlank c && c != '%') = true)
    (hrest : s.rest = words ++ cs) :
    ∃ t, x.Leads s t ∧ t.rest = cs ∧ Told s t words := by
  have hcs : cs ≠ [] := by
    rintro rfl
    simp at hnext
  induction words generalizing s with
  | nil => exact ⟨s, .refl s, hrest, ⟨by simp, rfl, rfl, rfl, hpending⟩⟩
  | cons c words ih =>
    obtain ⟨hc, hothers⟩ := List.forall_mem_cons.mp hwords
    have hleads : x.Leads s (x.step s) := leads_step_before hcs (List.cons_ne_nil c words) hrest
    have hsingle' : ¬ [' ', ' '] <:+: words := fun hwithin =>
      hsingle (hwithin.trans (List.suffix_cons c words).isInfix)
    -- a space is followed by a letter or by what comes after the words
    have hstep : Told s (x.step s) [c] ∧ (x.step s).rest = words ++ cs := by
      rcases hc with hc | rfl
      · exact step_letter hprose hpending hc hrest
      · have hspace : s.trailing.space = false := by
          rw [← Bool.not_eq_true]
          exact fun hspace => hfirst hspace rfl
        refine step_space hprose hpending ?_ hspace hrest
        cases words with
        | nil => exact hnext
        | cons d words =>
          have hd : d.isAlpha = true := by
            refine (hothers d List.mem_cons_self).resolve_right ?_
            rintro rfl
            exact hsingle ⟨[], words, rfl⟩
          have hclass : ([' ', '\t', '\n', '\r', '%'] : List Char).all
              (fun c => !c.isAlpha) = true := by decide
          have hvisible := Text.not_mem_of_class hclass hd
          simp only [List.mem_cons, List.not_mem_nil, or_false, not_or] at hvisible
          simp [Token.isBlank, Token.isLineEnd, hvisible]
    obtain ⟨htold, hrest'⟩ := hstep
    have hprose' : (x.step s).modes.top = .paragraphText := by rw [htold.modes_eq, hprose]
    have hfirst' : (x.step s).trailing.space = true → words.head? ≠ some ' ' := by
      intro hspace hhead
      obtain ⟨more, rfl⟩ := List.head?_eq_some_iff.mp hhead
      rw [htold.trailing_eq] at hspace
      rcases hc with hc | rfl
      · have hclass : ([' ', '\n', '\r'] : List Char).all (fun c => !c.isAlpha) = true := by decide
        have hnone := Text.not_mem_of_class hclass hc
        simp [Trailing.after, Trailing.ofChar, or_assoc] at hspace
        simp [hspace] at hnone
      · exact hsingle ⟨[], more, rfl⟩
    obtain ⟨t, hleads', htrest, ht⟩ := ih hprose' htold.pending_eq hothers hsingle' hfirst' hrest'
    exact ⟨t, hleads.trans hleads', htrest, htold.cons ht⟩

end Prose

end Extractor

end ProseLens
