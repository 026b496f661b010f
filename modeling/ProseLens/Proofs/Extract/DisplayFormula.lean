import ProseLens.Proofs.Extract.FormulaBody
import ProseLens.Proofs.Signature.Argument

/-!
# Formulas on lines of their own

A formula on lines of its own is opened by two dollar signs, by a bracket with a backslash or by an
environment.  The openings differ in two ways.  A star after the bracket makes it a command of
another name, and an environment swallows the arguments after it, which then are not part of its
body.

## Key results

- `readsAs_displayed`: what stands for a formula, given what its delimiters do
- `display_formulas_agree`: what stands for a formula, whichever way it is opened
-/

namespace ProseLens.Extractor

open Extract State

variable {x : Extractor} {empty : Bool} {cs body : List Char}

/-! ## Formulas after words -/

/-- What sets a formula on lines of its own off from the words before it. -/
def gapAfter (words : List Char) : String := if words.getLast? = some ' ' then "" else " "

/-- What words and a formula on lines of its own after them are read as, given whether the formula
    is empty and which punctuation it ends with. -/
def displayed (x : Extractor) (words : List Char) (empty : Bool) (punctuation : Option Char) :
    String :=
  String.ofList words ++ gapAfter words ++ if empty then "" else
    Placeholder.singular.word x.options.language 0 false ++ punctuation.elim "" Char.toString ++ " "

section Words

variable {words : List Char} (hwords : ∀ c ∈ words, c.isAlpha = true ∨ c = ' ')

include hwords

/-- The gap after words is a space unless they end with one. -/
theorem gapAfter_eq :
    gapAfter words = if (Trailing.after {} words).space then "" else " " := by
  unfold gapAfter Trailing.after
  cases hlast : words.getLast? with
  | none => rfl
  | some c =>
    -- the words end in a letter, which leaves no space behind it, or in a space
    rcases hwords c (List.mem_of_getLast? hlast) with hc | rfl
    · have hclass : ([' ', '\n', '\r'] : List Char).all (fun c => !c.isAlpha) = true := by decide
      have hnone := Text.not_mem_of_class hclass hc
      simp only [List.mem_cons, List.not_mem_nil, or_false, not_or] at hnone
      simp [Trailing.ofChar, hnone]
    · rfl

/-- Words and a formula on lines of its own after them, whichever way it is opened and closed. -/
theorem readsAs_displayed (hsingle : ¬ [' ', ' '] <:+: words) (closing : List Char)
    (hbody : body.all Text.isSimple = true)
    (hcs : cs.head?.any (fun c => !Token.isBlank c && c != '%') = true) (hlone : cs ≠ ['\\'])
    (hclosing : closing.head?.any (fun c => !Token.isBlank c && c != '%') = true)
    (hlone' : closing ≠ ['\\'])
    (hopens : ∀ s : State, s.modes.top = .paragraphText → s.pending = {} → s.rest = cs →
      InFormula s (x.step s) .displayMath empty none ∧ (x.step s).rest = body ++ closing)
    (hcloses : ∀ t : State, t.modes.top = .displayMath → t.rest = closing →
      (x.step t).rest = [] ∧ (x.step t).builder.plain = t.builder.plain ++ x.substitute t) :
    x.ReadsAs (words ++ cs)
      (x.displayed words (empty && body.all isFiller) (waiting none body)) := by
  intro origin
  obtain ⟨s, hwordsLeads, hsrest, htold⟩ := leads_prose (x := x)
    (s := .start (words ++ cs) origin) rfl rfl hwords hsingle (fun h => nomatch h) hcs rfl
  have hprose : s.modes.top = .paragraphText := by rw [htold.modes_eq]; rfl
  have hne : s.rest ≠ [] := by
    rw [hsrest]
    rintro rfl
    simp at hcs
  -- the opening is one step, the body is read step by step, and the closing is one step again
  have hopening : x.Leads s (x.step s) :=
    leads_step hne fun hstuck => hlone (hsrest.symm.trans hstuck.1)
  obtain ⟨hin, hrest⟩ := hopens s hprose htold.pending_eq hsrest
  obtain ⟨t, hbodyLeads, htrest, ht⟩ := leads_simple_body hin rfl hbody hclosing hrest
  have hne' : t.rest ≠ [] := by
    rw [htrest]
    rintro rfl
    simp at hclosing
  have hclosingLeads : x.Leads t (x.step t) :=
    leads_step hne' fun hstuck => hlone' (htrest.symm.trans hstuck.1)
  obtain ⟨hend, hplain⟩ := hcloses t ht.top_eq htrest
  -- all of it together is one extraction, from the start to the end
  have hreaches : x.Reaches (String.ofList (words ++ cs)).toList origin (x.step t) := by
    rw [String.toList_ofList]
    exact Reaches.start.leads
      (hwordsLeads.trans (hopening.trans (hbodyLeads.trans hclosingLeads)))
  refine ⟨_, hreaches.result_eq_ok hend, ?_⟩
  show (x.step t).builder.plain = _
  have hempty : (State.start (words ++ cs) origin).builder.plain = "" := rfl
  -- the plain text is that of the words and what the closing tag adds
  rw [hplain, ht.agrees.plain_eq, htold.plain_eq, InFormula.substitute_eq ht hprose,
    htold.placeholders_eq, htold.trailing_eq, displayed, gapAfter_eq hwords, hempty,
    String.empty_append, ← String.append_assoc]
  rfl

end Words

/-! ## Arguments after an opening -/

/-- The arguments in parentheses that `groups` are the insides of, one after the other. -/
def parenthesized (groups : List (List Char)) : List Char :=
  groups.flatMap fun group => '(' :: (group ++ [')'])

section Arguments

variable {groups : List (List Char)}

/-- A body is as many groups in parentheses as it begins with, and a rest that begins with none. -/
theorem exists_groups (body : List Char) :
    ∃ groups rest, body = parenthesized groups ++ rest ∧
      (∀ group ∈ groups, ∀ c ∈ group, c ∉ Signature.structural) ∧
      ¬ ∃ group after, rest = '(' :: (group ++ ')' :: after) ∧
        ∀ c ∈ group, c ∉ Signature.structural := by
  -- the induction is on the length, since a group takes characters off the front
  induction hlength : body.length using Nat.strongRecOn generalizing body with
  | ind length ih =>
    by_cases hgroup : ∃ group after, body = '(' :: (group ++ ')' :: after) ∧
        ∀ c ∈ group, c ∉ Signature.structural
    · obtain ⟨group, after, rfl, hfree⟩ := hgroup
      have hshorter : after.length < length := by
        simp only [List.length_cons, List.length_append] at hlength
        omega
      obtain ⟨groups, rest, rfl, hgroups, hnone⟩ := ih after.length hshorter after rfl
      refine ⟨group :: groups, rest, ?_, List.forall_mem_cons.mpr ⟨hfree, hgroups⟩, hnone⟩
      simp [parenthesized]
    · exact ⟨[], body, rfl, by simp, hgroup⟩

/-- The arguments that follow an opening directly are passed over with it. -/
theorem drop_argumentRun {name rest : List Char} (hname : ∀ c ∈ name, c ∉ Signature.structural)
    (hgroups : ∀ group ∈ groups, ∀ c ∈ group, c ∉ Signature.structural)
    (hrest : ∀ c ∈ rest, c ∉ ['\\', '{', '[', '}'])
    (hnone : ¬ ∃ group after, rest = '(' :: (group ++ ')' :: after) ∧
      ∀ c ∈ group, c ∉ Signature.structural) :
    (parenthesized groups ++ rest ++ Signature.closingTag name).drop
        (argumentRun (parenthesized groups ++ rest ++ Signature.closingTag name)).sum =
      rest ++ Signature.closingTag name := by
  induction groups with
  | nil =>
    have hnil : argumentRun (rest ++ Signature.closingTag name) = [] :=
      Signature.argumentRun_eq_nil hname hrest hnone
    show (rest ++ Signature.closingTag name).drop (argumentRun (rest ++ _)).sum = _
    rw [hnil]
    rfl
  | cons group groups ih =>
    obtain ⟨hgroup, hgroups⟩ := List.forall_mem_cons.mp hgroups
    -- the first group is an argument, and what follows it is the rest of the run
    have hsplit : parenthesized (group :: groups) ++ rest ++ Signature.closingTag name =
        '(' :: (group ++ ')' :: (parenthesized groups ++ rest ++ Signature.closingTag name)) := by
      simp [parenthesized]
    have hdrop (more : List Char) :
        ('(' :: (group ++ ')' :: more)).drop (group.length + 2) = more := by simp
    rw [hsplit, Signature.argumentRun_group hgroup, List.sum_cons, ← List.drop_drop, hdrop]
    exact ih hgroups

end Arguments

/-- A body that is all arguments: groups in parentheses that do not nest, if any, and fillers after
    them. -/
def OnlyArguments (body : List Char) : Prop :=
  ∃ groups fillers, body = parenthesized groups ++ fillers ∧
    (∀ group ∈ groups, ∀ c ∈ group, c ≠ ')' ∧ c ≠ ']') ∧ fillers.all isFiller = true

section Openers

variable {words : List Char} (hwords : ∀ c ∈ words, c.isAlpha = true ∨ c = ' ')
  (hsingle : ¬ [' ', ' '] <:+: words) (hbody : body.all Text.isSimple = true)

include hwords hsingle hbody

/-- A formula between double dollar signs is read as a formula on lines of its own. -/
theorem readsAs_dollars :
    x.ReadsAs (words ++ (['$', '$'] ++ body ++ ['$', '$']))
      (x.displayed words false (waiting none body)) := by
  rw [← Bool.false_and (body.all isFiller)]
  refine readsAs_displayed hwords hsingle ['$', '$'] hbody rfl (by simp) rfl
    (by decide) ?_ ?_
  · intro s hprose hpending hrest
    exact step_dollars_opening hprose hpending hrest
  · intro t htop hrest
    exact step_dollars_closing htop hrest

/-- A formula between brackets with backslashes is read as the same text if no star comes first. -/
theorem readsAs_brackets (hstar : body.head? ≠ some '*') :
    x.ReadsAs (words ++ (['\\', '['] ++ body ++ ['\\', ']']))
      (x.displayed words false (waiting none body)) := by
  -- a star behind `\[` would be taken into the command
  have hfollows : (body ++ ['\\', ']']).head? ≠ some '*' := by
    cases body with
    | nil => decide
    | cons c body => exact hstar
  rw [← Bool.false_and (body.all isFiller)]
  refine readsAs_displayed hwords hsingle ['\\', ']'] hbody rfl (by simp) rfl
    (by decide) ?_ ?_
  · intro s hprose hpending hrest
    exact step_bracket_opening hprose hpending hfollows hrest
  · intro t htop hrest
    exact step_bracket_closing (by rw [htop]; rfl) (by simp) hrest

/-- The environment, given which part of what stands in it are its arguments. -/
theorem readsAs_equation {groups : List (List Char)}
    (hgroups : ∀ group ∈ groups, ∀ c ∈ group, c ∉ Signature.structural)
    (hnone : ¬ ∃ group after, body = '(' :: (group ++ ')' :: after) ∧
      ∀ c ∈ group, c ∉ Signature.structural) :
    x.ReadsAs (words ++ ("\\begin\x7bequation\x7d".toList ++ (parenthesized groups ++ body) ++
        "\\end\x7bequation\x7d".toList))
      (x.displayed words (body.all isFiller) (waiting none body)) := by
  have hname : ∀ c ∈ "equation".toList, c ∉ Signature.structural := by
    simp [Signature.structural]
  have hbrace : '}' ∉ "equation".toList := by decide
  have hmath : String.ofList "equation".toList ∈ mathEnvironments := by decide +kernel
  have hmode : formulaMode "equation".toList = .displayMath := by decide +kernel
  -- nothing in the body can begin another argument
  have hclass : ∀ c ∈ body, c ∉ ['\\', '{', '[', '}'] := by
    intro c hc
    have hnone : (['\\', '{', '[', '}'] : List Char).all (fun c => !Text.isSimple c) = true := by
      decide
    exact Text.not_mem_of_class hnone (List.all_eq_true.mp hbody c hc)
  rw [← Bool.true_and (body.all isFiller)]
  refine readsAs_displayed hwords hsingle "\\end\x7bequation\x7d".toList hbody rfl
    (by simp) rfl (by decide) ?_ ?_
  · intro s hprose hpending hrest
    have hrest' : s.rest = "\\begin".toList ++ '{' :: ("equation".toList ++ '}' ::
        (parenthesized groups ++ body ++ Signature.closingTag "equation".toList)) := by
      rw [hrest, List.append_assoc]
      rfl
    obtain ⟨hin, hdrop⟩ := step_environment_opening (x := x) hprose hpending hbrace hmath hrest'
    rw [drop_argumentRun hname hgroups hclass hnone] at hdrop
    rw [hmode] at hin
    exact ⟨hin, hdrop⟩
  · intro t htop hrest
    exact step_environment_closing (by rw [htop]; rfl) hbrace hmath hrest

end Openers

/-- Words with single spaces between them are followed by a formula on lines of its own, whose body
    is simple.  Between two dollar signs, between brackets with backslashes if it does not begin
    with a star, and in an environment unless it is all arguments, the formula is read as the same
    text: a space unless the words end with one, the placeholder, the punctuation that the body ends
    with, and a space.  An environment whose body is all arguments shows nothing: all that is left
    of it is the space after the words. -/
theorem display_formulas_agree (x : Extractor) (words body : List Char)
    (hwords : ∀ c ∈ words, c.isAlpha = true ∨ c = ' ') (hsingle : ¬ [' ', ' '] <:+: words)
    (hbody : ∀ c ∈ body,
      c ∉ ['\\', '{', '}', '$', '%', '[', '<', '\x60', '\x27', '\x22']) :
    ∃ plain,
      plain = String.ofList words ++ gapAfter words ++
        (Placeholder.singular.word x.options.language 0 false ++
          (waiting none body).elim "" Char.toString ++ " ") ∧
      x.ReadsAs (words ++ (['$', '$'] ++ body ++ ['$', '$'])) plain ∧
      (body.head? ≠ some '*' →
        x.ReadsAs (words ++ (['\\', '['] ++ body ++ ['\\', ']'])) plain) ∧
      (¬ OnlyArguments body →
        x.ReadsAs (words ++ ("\\begin\x7bequation\x7d".toList ++ body ++
          "\\end\x7bequation\x7d".toList)) plain) ∧
      (OnlyArguments body →
        x.ReadsAs (words ++ ("\\begin\x7bequation\x7d".toList ++ body ++
          "\\end\x7bequation\x7d".toList)) (String.ofList words ++ gapAfter words)) := by
  have hsimple : body.all Text.isSimple = true := by
    rw [List.all_eq_true]
    exact fun c hc => Text.isSimple_iff.mpr (hbody c hc)
  refine ⟨x.displayed words false (waiting none body), rfl, readsAs_dollars hwords hsingle hsimple,
    readsAs_brackets hwords hsingle hsimple, ?_, ?_⟩
  · intro hshown
    obtain ⟨groups, rest, rfl, hgroups, hnone⟩ := exists_groups body
    rw [List.all_append, Bool.and_eq_true] at hsimple
    -- if all that follows the groups were fillers, the body would be all arguments
    have hrest : rest.all isFiller = false := by
      rw [← Bool.not_eq_true]
      intro hfillers
      refine hshown ⟨groups, rest, rfl, ?_, hfillers⟩
      intro group hgroup c hc
      have hfree := hgroups group hgroup c hc
      constructor <;> rintro rfl <;> exact hfree (by decide)
    rw [waiting_append_of_shown hrest, ← hrest]
    exact readsAs_equation hwords hsingle hsimple.2 hgroups hnone
  · rintro ⟨groups, fillers, rfl, hgroups, hfillers⟩
    rw [List.all_append, Bool.and_eq_true] at hsimple
    have hfree : ∀ group ∈ groups, ∀ c ∈ group, c ∉ Signature.structural := by
      intro group hgroup c hc
      have hmem : c ∈ parenthesized groups ++ fillers := by
        simp only [parenthesized, List.mem_append, List.mem_flatMap]
        exact .inl ⟨group, hgroup, by simp [hc]⟩
      have hplain := hbody c hmem
      simp only [List.mem_cons, List.not_mem_nil, or_false, not_or] at hplain
      simp [Signature.structural, hplain, hgroups group hgroup c hc]
    have hnone : ¬ ∃ group after, fillers = '(' :: (group ++ ')' :: after) ∧
        ∀ c ∈ group, c ∉ Signature.structural := by
      rintro ⟨group, after, rfl, -⟩
      rw [List.all_cons, Bool.and_eq_true] at hfillers
      exact absurd hfillers.1 (by decide)
    have hreads := readsAs_equation (x := x) hwords hsingle hsimple.2 hfree hnone
    rw [hfillers] at hreads
    simpa [displayed] using hreads

/-- A list of two symbols after a word, in an environment with a blank on either side. -/
theorem display_formulas_agree_list :
    Extractor.builtin.ReadsAs "take $$ x, y. $$".toList "take Dummy0. " ∧
      Extractor.builtin.ReadsAs "take \\begin\x7bequation\x7d x, y. \\end\x7bequation\x7d".toList
        "take Dummy0. " := by
  obtain ⟨plain, hplain, hdollars, -, henvironment, -⟩ := display_formulas_agree Extractor.builtin
    "take ".toList " x, y. ".toList (by simp) (by decide) (by simp)
  -- a body that starts with a space has no group in front, and `x` is no filler
  have hshown : ¬ OnlyArguments " x, y. ".toList := by
    rintro ⟨groups, fillers, hsplit, -, hfillers⟩
    cases groups with
    | nil =>
      rw [parenthesized, List.flatMap_nil, List.nil_append] at hsplit
      rw [← hsplit] at hfillers
      exact absurd hfillers (by decide)
    | cons group groups => exact absurd (List.cons.inj hsplit).1 (by decide)
  have hplain' : plain = "take Dummy0. " := by
    rw [hplain]
    decide +kernel
  rw [hplain'] at hdollars henvironment
  exact ⟨hdollars, henvironment hshown⟩

/-- The argument of an environment is not part of its formula. -/
theorem display_formulas_disagree :
    ¬ ∀ words body : List Char, (∀ c ∈ words, c.isAlpha = true ∨ c = ' ') →
      ¬ [' ', ' '] <:+: words →
      (∀ c ∈ body, c ∉ ['\\', '{', '}', '$', '%', '[', '<', '\x60', '\x27', '\x22']) →
      (∃ c ∈ body, c ∉ [' ', '\t', '\r', '\n', '~', '&']) →
      ∃ plain,
        (Extractor.builtin.withStrict false).ReadsAs
          (words ++ (['$', '$'] ++ body ++ ['$', '$'])) plain ∧
        (Extractor.builtin.withStrict false).ReadsAs
          (words ++ (['\\', '['] ++ body ++ ['\\', ']'])) plain ∧
        (Extractor.builtin.withStrict false).ReadsAs
          (words ++ ("\\begin\x7bequation\x7d".toList ++ body ++
            "\\end\x7bequation\x7d".toList)) plain := by
  intro h
  obtain ⟨plain, hdollars, -, henvironment⟩ :=
    h [] ['(', 'x', ')'] (by simp) (by decide) (by simp) ⟨'x', by decide, by decide⟩
  obtain ⟨text, hresult, htext⟩ := hdollars 0
  obtain ⟨text', hresult', htext'⟩ := henvironment 0
  -- between dollars the body is a formula
  have hread : ((Extractor.builtin.withStrict false).extract (String.ofList ([] ++
      (['$', '$'] ++ ['(', 'x', ')'] ++ ['$', '$']))) 0).result.toOption.map AnnotatedText.plain =
        some " Dummy0 " := by decide +kernel
  -- as an environment its body is a swallowed argument, so that no placeholder is shown
  have hread' : ((Extractor.builtin.withStrict false).extract (String.ofList ([] ++
      ("\\begin\x7bequation\x7d".toList ++ ['(', 'x', ')'] ++
        "\\end\x7bequation\x7d".toList))) 0).result.toOption.map AnnotatedText.plain =
          some " " := by decide +kernel
  rw [hresult] at hread
  rw [hresult'] at hread'
  have hplain : text.plain = " Dummy0 " := Option.some.inj hread
  have hplain' : text'.plain = " " := Option.some.inj hread'
  rw [← htext', hplain', hplain] at htext
  exact absurd htext (by decide)

end ProseLens.Extractor