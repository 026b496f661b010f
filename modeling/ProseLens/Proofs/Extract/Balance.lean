import ProseLens.Proofs.Extract.OpaqueRegion
import ProseLens.Proofs.Extract.Passage
import ProseLens.Proofs.Token.Group
import ProseLens.Signature.Builtin

/-!
# Balanced prose

A grammar of prose in which whatever is opened is closed: words, citations, comments, groups,
formulas, titles and environments, inside each other to any depth.  Such prose is read without a
stall and leaves the modes as they were.

The statement about one phrase has to say what comes after it, since some constructs look ahead:
`Crosses` is about a phrase before any text that may follow it.  Each rule of the grammar has a
lemma about such phrases, and what most of them have in common is `Passes.enclosed`: the opening
delimiter enters a mode, the body leaves the modes as they are, and the closing delimiter returns to
the mode before.

## Key results

- `Balanced`: the grammar
- `crosses_of_balanced`: a balanced phrase leaves the modes as they were
-/

namespace ProseLens

/-- The kinds of phrases. -/
inductive Phrase where
  /-- Pieces with a space between any two of them. -/
  | prose
  /-- A word, a citation, a comment, or something that encloses other phrases. -/
  | piece
  /-- A formula without its delimiters. -/
  | math
  /-- A part of a formula. -/
  | item
  deriving DecidableEq

/-- The balanced phrases of each kind. -/
inductive Balanced : Phrase → List Char → Prop where
  -- one or more pieces
  | single {p : List Char} (hp : Balanced .piece p) : Balanced .prose p
  | more {p q : List Char} (hp : Balanced .piece p) (hq : Balanced .prose q) :
      Balanced .prose (p ++ ' ' :: q)
  -- pieces that enclose nothing
  | word {w : List Char} (hne : w ≠ []) (hw : w.all Char.isAlpha = true) : Balanced .piece w
  | stop : Balanced .piece ['.']
  | note : Balanced .piece "% note\n".toList
  | cite {k : List Char} (hne : k ≠ []) (hk : k.all Char.isAlpha = true) :
      Balanced .piece ("\\cite\x7b".toList ++ k ++ ['}'])
  -- pieces that enclose prose, a formula, or anything without their end
  | group {p : List Char} (hp : Balanced .prose p) : Balanced .piece (['{'] ++ p ++ ['}'])
  | dollar {m : List Char} (hm : Balanced .math m) : Balanced .piece (['$'] ++ m ++ ['$'])
  | dollars {m : List Char} (hm : Balanced .math m) :
      Balanced .piece (['$', '$'] ++ m ++ ['$', '$'])
  | parenthesis {m : List Char} (hm : Balanced .math m) :
      Balanced .piece (['\\', '('] ++ m ++ ['\\', ')'])
  | bracket {m : List Char} (hm : Balanced .math m) :
      Balanced .piece (['\\', '['] ++ m ++ ['\\', ']'])
  | title {p : List Char} (hp : Balanced .prose p) :
      Balanced .piece ("\\section\x7b".toList ++ p ++ ['}'])
  | itemize {p : List Char} (hp : Balanced .prose p) :
      Balanced .piece ("\\begin\x7bitemize\x7d ".toList ++ p ++ " \\end\x7bitemize\x7d".toList)
  | equation {m : List Char} (hm : Balanced .math m) :
      Balanced .piece ("\\begin\x7bequation\x7d ".toList ++ m ++ " \\end\x7bequation\x7d".toList)
  | verbatim {v : List Char} (hv : ¬ "\\end\x7bverbatim\x7d".toList <:+: v) :
      Balanced .piece ("\\begin\x7bverbatim\x7d".toList ++ v ++ "\\end\x7bverbatim\x7d".toList)
  -- a letter and one or more parts
  | first {i : List Char} (hi : Balanced .item i) : Balanced .math (['x', ' '] ++ i)
  | next {m i : List Char} (hm : Balanced .math m) (hi : Balanced .item i) :
      Balanced .math (m ++ ' ' :: i)
  -- parts of formulas, of which some enclose a formula or prose
  | alpha : Balanced .item "\\alpha".toList
  | plus : Balanced .item ['+']
  | comma : Balanced .item [',']
  | letter : Balanced .item ['y']
  | subformula {m : List Char} (hm : Balanced .math m) : Balanced .item (['{'] ++ m ++ ['}'])
  | text {p : List Char} (hp : Balanced .prose p) :
      Balanced .item ("\\text\x7b".toList ++ p ++ ['}'])

/-! ## Where phrases stand -/

namespace Phrase

/-- Whether phrases of a kind stand in a mode. -/
def standsIn : Phrase → Mode → Bool
  | prose, mode | piece, mode => mode.isText && !mode.isOpaque
  | math, mode | item, mode => mode.isMath

/-- Phrases stand in modes only that are read for constructs. -/
theorem isOpaque_of_standsIn {kind : Phrase} {mode : Mode} (h : kind.standsIn mode = true) :
    mode.isOpaque = false := by
  revert h
  cases kind <;> cases mode <;> decide

/-- No piece stands in a formula, so that delimiters of formulas open one there. -/
theorem ne_math_of_standsIn {mode : Mode} (h : piece.standsIn mode = true) :
    mode ≠ .inlineMath ∧ mode ≠ .displayMath := by
  revert h
  cases mode <;> decide

/-- The characters that may come right after a phrase of a kind. -/
def followers : Phrase → List Char
  | prose | piece => [' ', '}']
  | math | item => [' ', '}', '$', '\\']

/-- A space may come after a phrase of any kind. -/
theorem space_mem_followers (kind : Phrase) : ' ' ∈ kind.followers := by
  cases kind <;> decide

/-- A closing brace may come after a phrase of any kind. -/
theorem brace_mem_followers (kind : Phrase) : '}' ∈ kind.followers := by
  cases kind <;> decide

/-- The text `tail` may come right after a phrase of a kind. -/
def Precedes (kind : Phrase) (tail : List Char) : Prop := ∀ c ∈ tail.head?, c ∈ kind.followers

/-- Whether a text may come after a phrase depends on its first character. -/
theorem precedes_cons {kind : Phrase} {c : Char} (h : c ∈ kind.followers) (cs : List Char) :
    kind.Precedes (c :: cs) := by
  intro d hd
  rwa [← Option.some.inj hd]

/-- A text that may come after a phrase does not begin with any other character. -/
theorem Precedes.head?_ne {kind : Phrase} {tail : List Char} (h : kind.Precedes tail) {c : Char}
    (hc : c ∉ kind.followers) : tail.head? ≠ some c :=
  fun hhead => hc (h c hhead)

end Phrase

/-! ## How groups begin -/

namespace Balanced

/-- A formula begins with a letter and a space. -/
theorem math_eq_cons {m : List Char} (h : Balanced .math m) : ∃ rest, m = 'x' :: ' ' :: rest := by
  generalize hkind : Phrase.math = kind at h
  induction h with
  | first => exact ⟨_, rfl⟩
  | next _ _ ih =>
    obtain ⟨rest, rfl⟩ := ih hkind
    exact ⟨_, rfl⟩
  | _ => cases hkind

/-- A brace in front of a piece and a space is read as a group. -/
theorem opensGroup_of_piece {p rest : List Char} (h : Balanced .piece p)
    (hrest : ∀ c ∈ rest.head?, c = ' ') : Token.OpensGroup (p ++ rest) := by
  cases h with
  | word hne hw =>
    refine Token.opensGroup_of_ordinary hne ?_ hrest
    intro c hc
    exact Text.isOrdinary_of_class (by decide) (List.all_eq_true.mp hw c hc)
  | stop =>
    have hstop : ∀ c ∈ ['.'], Text.isOrdinary c = true := by simp [Text.isOrdinary, Text.specials]
    exact Token.opensGroup_of_ordinary (by decide) hstop hrest
  | _ =>
    -- all others begin with a percent sign, a brace, a dollar sign or a control sequence
    exact Token.opensGroup_of_special (by decide) (by decide) rfl

/-- A brace in front of balanced prose is read as a group. -/
theorem opensGroup_of_prose {p : List Char} (h : Balanced .prose p) : Token.OpensGroup p := by
  cases h with
  | single hp =>
    rw [← List.append_nil p]
    exact opensGroup_of_piece hp (by simp)
  | more hp _ => exact opensGroup_of_piece hp (by simp)

/-- A brace in front of a balanced formula is read as a group. -/
theorem opensGroup_of_math {m : List Char} (h : Balanced .math m) : Token.OpensGroup m := by
  obtain ⟨rest, rfl⟩ := h.math_eq_cons
  have hletter : ∀ c ∈ ['x'], Text.isOrdinary c = true := by simp [Text.isOrdinary, Text.specials]
  exact Token.opensGroup_of_ordinary (by decide) hletter (by simp)

end Balanced

/-! ## What the built-in signatures say -/

namespace Signature

/-- An argument of letters ends with its closing brace. -/
theorem closeArgument_of_letters {k : List Char} (hk : k.all Char.isAlpha = true) (taken : Nat)
    (rest : List Char) :
    closeArgument .brace [] taken (k ++ '}' :: rest) = some (taken + k.length + 1) := by
  induction k generalizing taken with
  | nil => simp [closeArgument, Delimiter.closing]
  | cons c k ih =>
    rw [List.all_cons, Bool.and_eq_true] at hk
    obtain ⟨hc, hk⟩ := hk
    have hspecial : ['\\', '{', '}', '[', ']', ')'].all (fun c => !c.isAlpha) = true := by decide
    have hne : c ∉ ['\\', '{', '}', '[', ']', ')'] := by
      intro hmem
      have hnot := List.all_eq_true.mp hspecial c hmem
      simp [hc] at hnot
    simp only [List.mem_cons, List.not_mem_nil, or_false, not_or] at hne
    obtain ⟨hbackslash, hopen, hclose, hbracket, hbracket', hparenthesis⟩ := hne
    -- a letter is none of the characters that an argument is closed or nested by
    have hstep : closeArgument .brace [] taken (c :: (k ++ '}' :: rest)) =
        closeArgument .brace [] (taken + 1) (k ++ '}' :: rest) := by
      rw [closeArgument.eq_def]
      split
      · next heq => cases heq
      · next heq => exact absurd (List.cons.inj heq).1 hbackslash
      · next heq => exact absurd (List.cons.inj heq).1 hbackslash
      · next heq =>
        obtain ⟨rfl, rfl⟩ := List.cons.inj heq
        simp [hopen, hclose, hbracket, hbracket']
    rw [List.cons_append, hstep, ih hk, List.length_cons]
    congr 1
    omega

/-- A signature that begins with a bracket does not match where a brace follows the name. -/
theorem Command.length?_of_bracket (name : String) (kinds : List Delimiter) (action : Action)
    (cs : List Char) :
    (Command.mk name (.bracket :: kinds) action).length? (name.toList ++ '{' :: cs) = none := by
  unfold Command.length?
  rw [Text.stripFront?_append]
  rfl

/-- A command with one argument in braces takes its name and a word in braces. -/
theorem Command.length?_of_letters (name : String) (action : Action) {k : List Char}
    (hk : k.all Char.isAlpha = true) (rest : List Char) :
    (Command.mk name [.brace] action).length? (name.toList ++ '{' :: (k ++ '}' :: rest)) =
      some (name.length + (k.length + 2)) := by
  have hargument : argument? .brace ('{' :: (k ++ '}' :: rest)) = some (k.length + 2) := by
    show closeArgument .brace [] 1 (k ++ '}' :: rest) = some (k.length + 2)
    rw [closeArgument_of_letters hk]
    congr 1
    omega
  unfold Command.length?
  rw [Text.stripFront?_append]
  simp [argumentsLength?, Token.commentLength, Token.comment?, hargument]

/-- The built-in signature of a citation takes a word in braces and stands for a placeholder. -/
theorem builtin_cite {k : List Char} (hk : k.all Char.isAlpha = true) (rest : List Char) :
    Registry.builtin.command? "\\cite" ("\\cite".toList ++ '{' :: (k ++ '}' :: rest)) =
      some ⟨⟨"\\cite", [.brace], .placeholder .singular⟩, 5 + (k.length + 2)⟩ := by
  have hcommands : Registry.builtin.commands "\\cite" =
      [⟨"\\cite", [.brace], .placeholder .singular⟩,
       ⟨"\\cite", [.bracket, .brace], .placeholder .singular⟩,
       ⟨"\\cite", [.bracket, .bracket, .brace], .placeholder .singular⟩] := by decide +kernel
  have hlength : (5 : Nat) = "\\cite".length := rfl
  rw [Registry.command?, hcommands, longest?]
  -- `{` opens no bracket, so that the two longer signatures have no match
  simp only [List.foldl_cons, List.foldl_nil, id_eq, Command.length?_of_letters _ _ hk,
    Command.length?_of_bracket]
  rw [hlength]

/-- The built-in signature of verbatim text hides its environment. -/
theorem builtin_verbatim (cs : List Char) :
    Registry.builtin.environment? (Environment.openingName (String.ofList "verbatim".toList))
      ("\\begin\x7bverbatim\x7d".toList ++ cs) =
        some ⟨⟨"verbatim", ⟨"\\begin\x7bverbatim\x7d", [], .ignore⟩, true⟩, 16⟩ := by
  have henvironments : Registry.builtin.environments
      (Environment.openingName (String.ofList "verbatim".toList)) =
        [⟨"verbatim", ⟨"\\begin\x7bverbatim\x7d", [], .ignore⟩, true⟩] := by decide +kernel
  rw [Registry.environment?, henvironments, longest?]
  simp only [List.foldl_cons, List.foldl_nil, Command.length?]
  rw [Text.stripFront?_append]
  rfl

end Signature

/-! ## Passing a phrase -/

namespace Extractor

open Extract State

/-- Wherever the phrase stands before a text that may follow it, it is passed over and leaves the
    modes as they were.  Blanks and comments around it do not matter. -/
def Crosses (x : Extractor) (kind : Phrase) (cs : List Char) : Prop :=
  ∀ modes tail, kind.standsIn modes.top = true → kind.Precedes tail →
    x.Passes modes (Token.visible (cs ++ tail)) modes (Token.visible tail)

variable {x : Extractor} {kind inner : Phrase} {mode : Mode} {p q m v name word : List Char}

/-- A phrase that begins visibly is crossed if it is passed where it stands: what is passed are the
    blanks and comments after it. -/
theorem Crosses.of_passes (hvisible : p.head?.any (fun c => !Token.isBlank c && c != '%') = true)
    (h : ∀ modes tail, kind.standsIn modes.top = true → kind.Precedes tail →
      x.Passes modes (p ++ tail) modes tail) : x.Crosses kind p := by
  intro modes tail hstands htail
  have hfree := Phrase.isOpaque_of_standsIn hstands
  rw [Token.visible_append hvisible]
  exact (h modes tail hstands htail).trans (passes_visible hfree tail)

/-- Pieces stand where prose does. -/
theorem crosses_prose_iff : x.Crosses .prose p ↔ x.Crosses .piece p := Iff.rfl

/-- Parts of formulas stand where formulas do. -/
theorem crosses_math_iff : x.Crosses .math m ↔ x.Crosses .item m := Iff.rfl

/-- Phrases with a space between them are crossed one after the other. -/
theorem Crosses.spaced (hp : x.Crosses kind p) (hq : x.Crosses kind q) :
    x.Crosses kind (p ++ ' ' :: q) := by
  intro modes tail hstands htail
  have hfirst := hp modes (' ' :: (q ++ tail)) hstands
    (Phrase.precedes_cons kind.space_mem_followers _)
  rw [Token.visible_blank (c := ' ') rfl] at hfirst
  rw [List.append_assoc, List.cons_append]
  exact hfirst.trans (hq modes tail hstands htail)

/-- What stands between two delimiters, with the same blanks inside either of them. -/
theorem Passes.enclosed {modes : ModeStack} {tail : List Char} (opening gap closing : List Char)
    (hbody : x.Crosses inner p) (hmode : inner.standsIn mode = true)
    (hgap : gap.all Token.isBlank = true)
    (hvisible : closing.head?.any (fun c => !Token.isBlank c && c != '%') = true)
    (hprecedes : inner.Precedes (gap ++ (closing ++ tail)))
    (hopens : x.Passes modes (opening ++ (gap ++ (p ++ (gap ++ (closing ++ tail)))))
      (modes.push mode) (gap ++ (p ++ (gap ++ (closing ++ tail)))))
    (hcloses : x.Passes (modes.push mode) (closing ++ tail) modes tail) :
    x.Passes modes (opening ++ (gap ++ (p ++ (gap ++ (closing ++ tail))))) modes tail := by
  -- behind the opening, the gap is passed up to what is visible
  have hbegins : x.Passes (modes.push mode) (gap ++ (p ++ (gap ++ (closing ++ tail))))
      (modes.push mode) (Token.visible (p ++ (gap ++ (closing ++ tail)))) := by
    rw [← Token.visible_append_of_blank hgap]
    exact passes_visible (Phrase.isOpaque_of_standsIn hmode) _
  -- the body is crossed in the mode that the opening has entered
  have hinner := hbody (modes.push mode) (gap ++ (closing ++ tail)) hmode hprecedes
  rw [Token.visible_append_of_blank hgap (closing ++ tail), Token.visible_append hvisible] at hinner
  exact hopens.trans (hbegins.trans (hinner.trans hcloses))

/-! ### Words, comments and commands -/

/-- A word of plain characters is crossed character by character. -/
theorem crosses_word (hne : p ≠ []) (hp : p.all isPlain = true) : x.Crosses kind p := by
  refine .of_passes ?_ ?_
  -- a word starts with no blank and with no character that has a meaning of its own
  · obtain ⟨c, p, rfl⟩ := List.exists_cons_of_ne_nil hne
    rw [List.all_cons, Bool.and_eq_true] at hp
    have hc : c ∉ Text.specials := by
      intro hmem
      have hplain := hp.1
      rw [isPlain, List.contains_eq_mem, Bool.not_eq_true', decide_eq_false_iff_not] at hplain
      exact hplain (List.mem_append_left _ hmem)
    simp only [Text.specials, List.mem_cons, not_or] at hc
    simp [Token.isBlank, Token.isLineEnd, hc]
  · intro modes tail hstands _
    exact passes_word (Phrase.isOpaque_of_standsIn hstands) hp

/-- A comment is crossed with the line end after it. -/
theorem crosses_note : x.Crosses .piece "% note\n".toList := by
  intro modes tail _ _
  have hvisible : Token.visible ("% note\n".toList ++ tail) = Token.visible tail :=
    calc Token.visible ("% note\n".toList ++ tail)
        = Token.visible ('\n' :: tail) := Token.visible_comment (" note\n".toList ++ tail)
      _ = Token.visible tail := Token.visible_blank rfl tail
  rw [hvisible]
  exact .refl modes _

/-- A citation of a word is crossed as one command. -/
theorem crosses_cite (hx : x.registry = .builtin) (hp : p.all Char.isAlpha = true) :
    x.Crosses .piece ("\\cite\x7b".toList ++ p ++ ['}']) := by
  refine .of_passes rfl ?_
  intro modes tail hstands _
  have hcontrol : Token.control? ("\\cite".toList ++ '{' :: (p ++ '}' :: tail)) =
      some "\\cite".toList.length :=
    Token.control?_word "cite".toList (by decide) (by decide) (by simp; decide)
  have hfound := Signature.builtin_cite hp tail
  rw [← hx] at hfound
  have hpasses := passes_placeholder (Phrase.isOpaque_of_standsIn hstands) hcontrol rfl hfound rfl
  have hdrop : ("\\cite".toList ++ '{' :: (p ++ '}' :: tail)).drop (5 + (p.length + 2)) = tail :=
    drop_tag "\\cite".toList p tail
  rw [hdrop] at hpasses
  rw [List.append_assoc, List.append_assoc]
  exact hpasses

/-- A symbol in a formula is crossed as one command. -/
theorem crosses_alpha (hx : x.registry = .builtin) : x.Crosses .item "\\alpha".toList := by
  refine .of_passes rfl ?_
  intro modes tail hstands htail
  have hunknown : x.registry.commands (String.ofList "\\alpha".toList) = [] := by
    rw [hx]
    decide +kernel
  -- whatever may come after it, the name ends there
  have hfollowers : Phrase.item.followers.all
      (fun c => !Token.isNameLetter c && c != '*') = true := by decide
  have hends : ∀ c ∈ tail.head?, Token.isNameLetter c = false ∧ c ≠ '*' := by
    intro c hc
    simpa using List.all_eq_true.mp hfollowers c (htail c hc)
  exact passes_unknown (Phrase.isOpaque_of_standsIn hstands)
    (Token.control?_word "alpha".toList (by decide) (by decide) hends) rfl hunknown

/-! ### Groups, formulas and arguments -/

/-- A group of balanced text is crossed: its braces enter a mode and leave it. -/
theorem crosses_group (h : x.Crosses kind p) (hopens : Token.OpensGroup p) :
    x.Crosses kind (['{'] ++ p ++ ['}']) := by
  refine .of_passes rfl ?_
  intro modes tail hstands _
  have hfree := Phrase.isOpaque_of_standsIn hstands
  rw [List.append_assoc, List.append_assoc]
  rcases Token.dimension?_of_opensGroup hopens tail with hnone | hwhole
  · exact .enclosed ['{'] [] ['}'] h hstands rfl rfl
      (Phrase.precedes_cons kind.brace_mem_followers _)
      (passes_openBrace hfree hnone (Token.accentGroup?_of_opensGroup hopens tail))
      (passes_closeBrace hfree)
  · -- a dimension is passed over with both of its braces, so that no mode is opened
    have hpasses := passes_dimension (x := x) hfree hwhole
    have hdrop : ('{' :: (p ++ '}' :: tail)).drop (p.length + 2) = tail := by simp
    rw [hdrop] at hpasses
    exact hpasses

/-- A balanced formula between dollar signs is crossed. -/
theorem crosses_dollar (hm : Balanced .math m) (h : x.Crosses .math m) :
    x.Crosses .piece (['$'] ++ m ++ ['$']) := by
  refine .of_passes rfl ?_
  intro modes tail hstands htail
  obtain ⟨rest, hrest⟩ := hm.math_eq_cons
  -- neither dollar sign is the first of two
  have hfirst : (m ++ (['$'] ++ tail)).head? ≠ some '$' := by simp [hrest]
  have hlast : tail.head? ≠ some '$' := htail.head?_ne (by decide)
  have hopens := passes_dollar_opening (x := x) (Phrase.isOpaque_of_standsIn hstands)
    (Phrase.ne_math_of_standsIn hstands).1 hfirst
  rw [List.append_assoc, List.append_assoc]
  exact .enclosed ['$'] [] ['$'] h rfl rfl rfl (Phrase.precedes_cons (by decide) _) hopens
    (passes_dollar_closing hlast)

/-- A balanced formula between double dollar signs is crossed. -/
theorem crosses_dollars (h : x.Crosses .math m) :
    x.Crosses .piece (['$', '$'] ++ m ++ ['$', '$']) := by
  refine .of_passes rfl ?_
  intro modes tail hstands _
  rw [List.append_assoc, List.append_assoc]
  exact .enclosed ['$', '$'] [] ['$', '$'] h rfl rfl rfl (Phrase.precedes_cons (by decide) _)
    (passes_dollars_opening (Phrase.isOpaque_of_standsIn hstands)
      (Phrase.ne_math_of_standsIn hstands).2) passes_dollars_closing

/-- A formula between two control symbols. -/
theorem crosses_formula {first last : Char} (hm : Balanced .math m) (h : x.Crosses .math m)
    (hmode : Phrase.math.standsIn mode = true) (hfirst : Token.isNameLetter first = false)
    (hlast : Token.isNameLetter last = false)
    (hopens : ∀ modes cs, modes.top.isOpaque = false →
      Token.control? (['\\', first] ++ cs) = some 2 →
      x.Passes modes (['\\', first] ++ cs) (modes.push mode) cs)
    (hcloses : Control.ofToken ['\\', last] = .mathEnd) :
    x.Crosses .piece (['\\', first] ++ m ++ ['\\', last]) := by
  refine .of_passes rfl ?_
  intro modes tail hstands htail
  obtain ⟨rest, hrest⟩ := hm.math_eq_cons
  -- neither symbol has a star
  have hstar : (m ++ (['\\', last] ++ tail)).head? ≠ some '*' := by simp [hrest]
  have hstar' : tail.head? ≠ some '*' := htail.head?_ne (by decide)
  have hends : x.Passes (modes.push mode) (['\\', last] ++ tail) modes tail :=
    passes_mathEnd (Phrase.isOpaque_of_standsIn hmode) (Token.control?_symbol hlast hstar') hcloses
  have hbegins := hopens modes _ (Phrase.isOpaque_of_standsIn hstands)
    (Token.control?_symbol hfirst hstar)
  rw [List.append_assoc, List.append_assoc]
  exact .enclosed ['\\', first] [] ['\\', last] h hmode rfl rfl
    (Phrase.precedes_cons (by decide) _) hbegins hends

/-- Prose in braces after a control word. -/
theorem crosses_argument (h : x.Crosses .prose p) (hmode : Phrase.prose.standsIn mode = true)
    (hne : word ≠ []) (hword : word.all Token.isNameLetter = true)
    (hopens : ∀ modes cs, modes.top.isOpaque = false →
      Token.control? ('\\' :: word ++ '{' :: cs) = some ('\\' :: word).length →
      x.Passes modes ('\\' :: word ++ '{' :: cs) (modes.push mode) cs) :
    x.Crosses kind (('\\' :: word ++ ['{']) ++ p ++ ['}']) := by
  refine .of_passes rfl ?_
  intro modes tail hstands _
  -- the command with its brace enters the mode of the argument
  have hbegins (cs : List Char) :
      x.Passes modes (('\\' :: word ++ ['{']) ++ cs) (modes.push mode) cs := by
    rw [List.append_assoc]
    exact hopens modes cs (Phrase.isOpaque_of_standsIn hstands)
      (Token.control?_word word hne hword (by simp; decide))
  rw [List.append_assoc, List.append_assoc]
  exact .enclosed ('\\' :: word ++ ['{']) [] ['}'] h hmode rfl rfl
    (Phrase.precedes_cons (by decide) _) (hbegins _)
    (passes_closeBrace (Phrase.isOpaque_of_standsIn hmode))

/-! ### Environments -/

/-- An environment with a space at either end of its body. -/
theorem crosses_environment (hname : '}' ∉ name) (h : x.Crosses inner p)
    (hopens : ∀ modes cs, Phrase.piece.standsIn modes.top = true →
      ∃ mode, inner.standsIn mode = true ∧
        x.Passes modes ("\\begin".toList ++ '{' :: (name ++ '}' :: ' ' :: cs)) (modes.push mode)
          (' ' :: cs)) :
    x.Crosses .piece (("\\begin".toList ++ '{' :: (name ++ ['}'])) ++ ([' '] ++ (p ++ ([' '] ++
      ("\\end".toList ++ '{' :: (name ++ ['}'])))))) := by
  refine .of_passes rfl ?_
  intro modes tail hstands _
  obtain ⟨mode, hmode, hbegins⟩ := hopens modes
    (p ++ ([' '] ++ (("\\end".toList ++ '{' :: (name ++ ['}'])) ++ tail))) hstands
  -- the closing tag leaves the mode that the opening tag has entered
  have hends : x.Passes (modes.push mode) ("\\end".toList ++ '{' :: (name ++ '}' :: tail)) modes
      tail := passes_closing (Phrase.isOpaque_of_standsIn hmode) hname
  rw [tag_append] at hbegins hends
  simp only [List.append_assoc _ _ tail]
  exact .enclosed _ [' '] _ h hmode rfl rfl (Phrase.precedes_cons inner.space_mem_followers _)
    hbegins hends

/-- A list of balanced prose is crossed. -/
theorem crosses_itemize (hx : x.registry = .builtin) (h : x.Crosses .prose p) :
    x.Crosses .piece
      ("\\begin\x7bitemize\x7d ".toList ++ p ++ " \\end\x7bitemize\x7d".toList) := by
  have hname : '}' ∉ "itemize".toList := by decide
  have hmath : mathEnvironments.contains (String.ofList "itemize".toList) = false := by
    decide +kernel
  -- no signature is filed for it, so that the arguments behind the tag are swallowed
  have hunknown : x.registry.environments
      (Signature.Environment.openingName (String.ofList "itemize".toList)) = [] := by
    rw [hx]
    decide +kernel
  rw [List.append_assoc]
  refine crosses_environment hname h ?_
  intro modes cs hstands
  exact ⟨modes.top, hstands, passes_openBody (Phrase.isOpaque_of_standsIn hstands) hname hmath
    hunknown (argumentRun_space cs)⟩

/-- An environment with a balanced formula is crossed. -/
theorem crosses_equation (h : x.Crosses .math m) :
    x.Crosses .piece
      ("\\begin\x7bequation\x7d ".toList ++ m ++ " \\end\x7bequation\x7d".toList) := by
  have hname : '}' ∉ "equation".toList := by decide
  have hmath : mathEnvironments.contains (String.ofList "equation".toList) = true := by
    decide +kernel
  -- only `math` opens an inline formula
  have hdisplay : String.ofList "equation".toList ≠ inlineMathEnvironment := by decide +kernel
  rw [List.append_assoc]
  refine crosses_environment hname h ?_
  intro modes cs hstands
  exact ⟨.displayMath, rfl, passes_openFormula (Phrase.isOpaque_of_standsIn hstands) hname hmath
    hdisplay (argumentRun_space cs)⟩

/-- An ignored environment is crossed, whatever stands in it up to its closing tag. -/
theorem crosses_verbatim (hx : x.registry = .builtin)
    (hv : ¬ "\\end\x7bverbatim\x7d".toList <:+: v) :
    x.Crosses .piece
      ("\\begin\x7bverbatim\x7d".toList ++ v ++ "\\end\x7bverbatim\x7d".toList) := by
  refine .of_passes rfl ?_
  intro modes tail hstands _ s hmodes hrest
  have hname : '}' ∉ "verbatim".toList := by decide
  have hunbordered : Text.Unbordered "\\end\x7bverbatim\x7d".toList := by decide
  rw [List.append_assoc, List.append_assoc] at hrest
  have hfound := Signature.builtin_verbatim (v ++ ("\\end\x7bverbatim\x7d".toList ++ tail))
  rw [← hx, ← hrest] at hfound
  obtain ⟨hleads, hhides, hpop, -, hdrop⟩ := step_ignoredBraced
    (by rw [hmodes]; exact Phrase.isOpaque_of_standsIn hstands) hname (by decide +kernel) hrest
    hfound rfl
  -- the name in braces is passed over with the body
  have hbody : (x.step s).rest = ('{' :: "verbatim".toList ++ ['}'] ++ v) ++
      ("\\end\x7bverbatim\x7d".toList ++ tail) := by
    rw [hdrop, hrest]
    rfl
  have hend : (Terminator.braced "verbatim".toList).length?
      ("\\end\x7bverbatim\x7d".toList ++ tail) = some "\\end\x7bverbatim\x7d".toList.length :=
    Terminator.length?_command_append trivial
  obtain ⟨t, hleads', hrest', hmodes', -⟩ := Hides.leads_end (x := x) hhides hbody (by simp) hend
    fun back hback hsuffix => Terminator.length?_before hname hunbordered hv hback hsuffix
  refine ⟨t, hleads.trans hleads', ?_, ?_⟩
  · rw [hmodes', hpop, hmodes]
  · rw [hrest', List.drop_left]

/-! ## Balanced phrases -/

/-- A balanced phrase leaves the modes as they were. -/
theorem crosses_of_balanced (hx : x.registry = .builtin) (h : Balanced kind p) :
    x.Crosses kind p := by
  -- by induction on the grammar; the modes and the text that follows are free in `Crosses`
  induction h with
  | single _ ih => exact crosses_prose_iff.mpr ih
  | more _ _ ihp ihq => exact (crosses_prose_iff.mpr ihp).spaced ihq
  | word hne hw =>
    refine crosses_word hne (List.all_eq_true.mpr ?_)
    intro c hc
    exact isPlain_of_isAlpha (List.all_eq_true.mp hw c hc)
  | stop => exact crosses_word (by decide) (by decide)
  | note => exact crosses_note
  | cite _ hk => exact crosses_cite hx hk
  | group hp ih => exact crosses_group (crosses_prose_iff.mp ih) hp.opensGroup_of_prose
  | dollar hm ih => exact crosses_dollar hm ih
  | dollars _ ih => exact crosses_dollars ih
  | parenthesis hm ih =>
    exact crosses_formula hm ih rfl (by decide) (by decide)
      (fun _ _ hfree hcontrol => passes_inlineMath hfree hcontrol rfl) rfl
  | bracket hm ih =>
    exact crosses_formula hm ih rfl (by decide) (by decide)
      (fun _ _ hfree hcontrol => passes_displayMath hfree hcontrol rfl) rfl
  | title _ ih =>
    have hword : "section".toList.all Token.isNameLetter = true := by decide
    exact crosses_argument ih rfl (by decide) hword
      fun _ _ hfree hcontrol => passes_title hfree hcontrol rfl
  | itemize _ ih => exact crosses_itemize hx ih
  | equation _ ih => exact crosses_equation ih
  | verbatim hv => exact crosses_verbatim hx hv
  | first _ ih =>
    have hletter : x.Crosses .math ['x'] := crosses_word (by decide) (by decide)
    exact hletter.spaced (crosses_math_iff.mpr ih)
  | next _ _ ihm ihi => exact ihm.spaced (crosses_math_iff.mpr ihi)
  | alpha => exact crosses_alpha hx
  | plus => exact crosses_word (by decide) (by decide)
  | comma => exact crosses_word (by decide) (by decide)
  | letter => exact crosses_word (by decide) (by decide)
  | subformula hm ih => exact crosses_group (crosses_math_iff.mp ih) hm.opensGroup_of_math
  | text _ ih =>
    have hword : "text".toList.all Token.isNameLetter = true := by decide
    exact crosses_argument ih rfl (by decide) hword
      fun _ _ hfree hcontrol => passes_inlineText hfree hcontrol rfl

/-- With the built-in signatures, whatever the language and the dialect and whether strict or not,
    balanced prose is read to its end without a stall, and nothing but running prose is left of the
    modes. -/
theorem balanced_prose_restores_modes (options : Options) (source : String) (origin : Nat)
    (h : Balanced .prose source.toList) :
    ∃ last, (Extractor.mk .builtin options).run source.toList origin = .finished last ∧
      ((Extractor.mk .builtin options).extract source origin).result = .ok last.builder.build ∧
      last.modes.toList = [.paragraphText] := by
  -- blanks and comments in front are passed first, then the prose up to the end
  have hstart : Extractor.Passes ⟨.builtin, options⟩ {} source.toList {}
      (Token.visible source.toList) := passes_visible rfl _
  have hcrosses : Extractor.Crosses ⟨.builtin, options⟩ .prose source.toList :=
    crosses_of_balanced rfl h
  have hpasses := hcrosses {} [] rfl (by simp [Phrase.Precedes])
  rw [List.append_nil, Token.visible_nil] at hpasses
  obtain ⟨last, hleads, hmodes, hrest⟩ :=
    hstart.trans hpasses (State.start source.toList origin) rfl rfl
  have hreaches := Reaches.start.leads hleads
  refine ⟨last, hreaches.run_eq_finished hrest, hreaches.result_eq_ok hrest, ?_⟩
  rw [hmodes]
  rfl

/-- Prose in a formula in a group, with stray delimiters that are hidden. -/
theorem balanced_prose_restores_modes_nested :
    ∃ source last,
      source = "\x7b$x \\text\x7b\\begin\x7bverbatim\x7d\x7d$\\end\x7bverbatim\x7d\x7d$\x7d a" ∧
      Balanced .prose source.toList ∧ Extractor.builtin.run source.toList 0 = .finished last ∧
      last.modes.toList = [.paragraphText] := by
  have hhidden := Balanced.verbatim (v := ['}', '$']) (by decide)
  have hformula := Balanced.dollar (.first (.text (.single hhidden)))
  have hword := Balanced.word (w := ['a']) (by decide) (by decide)
  have hsource : Balanced .prose
      "\x7b$x \\text\x7b\\begin\x7bverbatim\x7d\x7d$\\end\x7bverbatim\x7d\x7d$\x7d a".toList :=
    .more (.group (.single hformula)) (.single hword)
  obtain ⟨last, hrun, -, hmodes⟩ := balanced_prose_restores_modes {} _ 0 hsource
  exact ⟨_, last, rfl, hsource, hrun, hmodes⟩

end Extractor

end ProseLens
