import ProseLens.Proofs.Extract.FormulaBody
import ProseLens.Proofs.Signature.Argument
import ProseLens.Proofs.Signature.Longest

/-!
# Ignored environments of the settings

An environment that the settings list as ignored is hidden with its body, whatever the body holds
besides the closing tag.  The entry is one of several signatures that may be filed under the same
opening, but all of them ignore the body, so that it does not matter which one is the best.

Environments whose body is a formula are not looked up at all, and so cannot be hidden.

## Key results

- `Settings.ignores_of_mem`: what is filed under the opening of an ignored environment
- `readsAs_ignored`: an ignored environment shows nothing
- `ignored_environments_are_hidden_iff`: exactly the math environments cannot be ignored
-/

namespace ProseLens

/-- A text whose first character does not occur in it again does not overlap with itself. -/
theorem Text.unbordered_of_head {c : Char} {cs : List Char} (hc : c ∉ cs) :
    Unbordered (c :: cs) := by
  rintro k hk hpos ⟨rest, hrest⟩
  obtain ⟨k, rfl⟩ := Nat.exists_eq_succ_of_ne_zero (Nat.pos_iff_ne_zero.mp hpos)
  rw [List.drop_succ_cons] at hrest
  have hlt : k < cs.length := by simpa using hk
  -- a border shorter than the text would have `c` at its head, which stands nowhere else
  have hhead : (cs.drop k).head? = some c := by
    cases hdrop : cs.drop k with
    | nil => exact absurd (List.drop_eq_nil_iff.mp hdrop) (by omega)
    | cons d ds =>
      rw [hdrop, List.cons_append] at hrest
      rw [(List.cons.inj hrest).1]
      rfl
  exact hc (List.mem_of_mem_drop (List.mem_of_mem_head? hhead))

namespace Signature

/-- There is a best candidate as soon as one of them matches. -/
theorem exists_longest? {α : Type} {command : α → Command} {ignoresAll : α → Bool}
    {candidates : List α} {cs : List Char} {candidate : α} {n : Nat}
    (hmem : candidate ∈ candidates) (h : (command candidate).length? cs = some n) :
    ∃ best, longest? command ignoresAll candidates cs = some best := by
  cases hbest : longest? command ignoresAll candidates cs with
  | none => exact absurd (longest?_eq_none_iff.mp hbest candidate hmem) (by simp [h])
  | some best => exact ⟨best, rfl⟩

/-! ## Prototypes -/

/-- A command is named by the beginning of its prototype. -/
theorem Command.name_prefix_of_ofPrototype? {prototype : String} {action : Action} {c : Command}
    (h : ofPrototype? prototype action = some c) :
    c.name.toList <+: prototype.toList ∧ c.action = action := by
  obtain ⟨rfl, haction, -⟩ := ofPrototype?_eq_some_iff.mp h
  rw [Command.prototype, String.toList_append]
  exact ⟨List.prefix_append _ _, haction⟩

namespace Environment

/-- An environment has the action that its prototype is filed with. -/
theorem action_of_ofPrototype? {prototype : String} {action : Action} {e : Environment}
    (h : ofPrototype? prototype action = some e) : e.action = action := by
  unfold ofPrototype? at h
  -- one case for each way to write a prototype
  split at h
  · split at h
    · obtain ⟨opening, hopening, rfl⟩ := Option.map_eq_some_iff.mp h
      exact (Command.name_prefix_of_ofPrototype? hopening).2
    · cases h
  · split at h
    · split at h
      · cases h
      · next opening hopening =>
        split at h
        · cases h
        · cases h
        · cases h
          exact (Command.name_prefix_of_ofPrototype? hopening).2
    · split at h
      · cases h
      · cases h
        rfl

/-- What is filed under an opening with a name in braces has that name or begins with that
    opening. -/
theorem eq_or_prefix_of_ofPrototype? {prototype name : String} {action : Action} {e : Environment}
    (h : ofPrototype? prototype action = some e) (hopening : e.opening.name = openingName name) :
    prototype = name ∨ (openingName name).toList <+: prototype.toList := by
  unfold ofPrototype? at h
  split at h
  · split at h
    · obtain ⟨opening, hcommand, rfl⟩ := Option.map_eq_some_iff.mp h
      right
      rw [← hopening]
      exact (Command.name_prefix_of_ofPrototype? hcommand).1
    · cases h
  · split at h
    · split at h
      · cases h
      · next opening hcommand =>
        split at h
        · cases h
        · cases h
        · next attached hstrip =>
          -- an attached name would make the opening begin otherwise
          cases h
          rw [Text.stripFront?_eq_some_iff] at hstrip
          have hname := congrArg String.toList hopening
          rw [hstrip, ← String.ofList_toList (s := name), toList_openingName] at hname
          exact absurd (List.cons.inj (List.cons.inj hname).2).1 (by decide)
    · split at h
      · cases h
      · cases h
        left
        have hname := congrArg String.toList hopening
        rw [← String.ofList_toList (s := name), ← String.ofList_toList (s := prototype),
          toList_openingName, toList_openingName] at hname
        have hbraced := (List.cons.inj (List.append_cancel_left hname)).2
        exact String.toList_inj.mp (List.append_cancel_right hbraced)

/-- A name without a backslash is the prototype of an environment that swallows all arguments. -/
theorem ofPrototype?_name {name : String} (hne : name.toList ≠ []) (hname : '\\' ∉ name.toList)
    (action : Action) :
    ofPrototype? name action = some ⟨name, ⟨openingName name, [], action⟩, true⟩ := by
  apply ofPrototype?_bare
  · simpa using hne
  · exact fun hbegin => hname (hbegin.subset (by decide))
  · exact fun hstart => hname (hstart.subset (by decide))

end Environment

end Signature

/-! ## What the settings file under an opening -/

namespace Settings

open Signature

variable {settings : Settings} {name : String}

/-- No entry of the environments is about `name`. -/
def Leaves (settings : Settings) (name : String) : Prop :=
  ∀ key ∈ settings.environments,
    key ≠ name ∧ ¬ (Environment.openingName name).toList <+: key.toList

/-- All that is filed under the opening is to be ignored, if the settings leave the name to the
    list. -/
theorem action_of_filed (hleaves : settings.Leaves name) {e : Environment}
    (he : e ∈ settings.registry.environments (Environment.openingName name)) :
    e.action = .ignore := by
  rw [registry, Registry.environments_extend, List.mem_append] at he
  rcases he with hbuiltin | hadded
  · -- all built-in environments are ignored
    have hall : Registry.builtin.filedEnvironments.all (fun e => e.action == .ignore) = true := by
      decide +kernel
    simpa using List.all_eq_true.mp hall e (List.mem_filter.mp hbuiltin).1
  · obtain ⟨hmem, hopening⟩ := List.mem_filter.mp hadded
    rcases List.mem_append.mp hmem with hset | hignored
    · -- an entry of the environments would have to be about this name
      obtain ⟨⟨key, setting⟩, hentry, henvironment⟩ := List.mem_filterMap.mp hset
      obtain ⟨action, -, hprototype⟩ := Option.bind_eq_some_iff.mp henvironment
      have hkey : key ∈ settings.environments := by
        rw [Std.TreeMap.mem_toList_iff_getElem?_eq_some] at hentry
        rw [Std.TreeMap.mem_iff_isSome_getElem?, hentry]
        rfl
      obtain ⟨hne, hbegins⟩ := hleaves key hkey
      rcases Environment.eq_or_prefix_of_ofPrototype? hprototype (by simpa using hopening) with
        heq | hfront
      · exact absurd heq hne
      · exact absurd hfront hbegins
    · obtain ⟨prototype, -, hprototype⟩ := List.mem_filterMap.mp hignored
      exact Environment.action_of_ofPrototype? hprototype

/-- An ignored environment is found by its opening, and it is ignored. -/
theorem ignores_of_mem (hmem : name ∈ settings.ignoredEnvironments) (hne : name.toList ≠ [])
    (hname : '\\' ∉ name.toList) (hleaves : settings.Leaves name) (after : List Char) :
    ∃ found, settings.registry.environment? (Environment.openingName name)
        ((Environment.openingName name).toList ++ after) = some found ∧
      found.signature.action = .ignore := by
  obtain ⟨e, he⟩ : ∃ e : Environment,
      e = ⟨name, ⟨Environment.openingName name, [], .ignore⟩, true⟩ := ⟨_, rfl⟩
  -- the signature that the list files, which is found if nothing longer is
  have hfiled : e ∈ settings.registry.environments (Environment.openingName name) := by
    rw [registry, Registry.environments_extend, List.mem_append]
    right
    refine List.mem_filter.mpr ⟨List.mem_append_right _ ?_, by simp [he]⟩
    exact List.mem_filterMap.mpr ⟨name, hmem, by rw [Environment.ofPrototype?_name hne hname, he]⟩
  have hmatch : e.opening.length? ((Environment.openingName name).toList ++ after) =
      some (Environment.openingName name).length := by
    rw [he, Command.length?, Text.stripFront?_append]
    rfl
  obtain ⟨found, hfound⟩ := exists_longest? hfiled hmatch
  exact ⟨found, hfound, action_of_filed hleaves (mem_of_longest?_eq_some hfound).1⟩

end Settings

namespace Extractor

open Extract State Signature

variable {x : Extractor} {s t : State} {name : List Char}

/-- The source of an environment with this body. -/
def environmentSource (name body : List Char) : List Char :=
  "\\begin".toList ++ '{' :: (name ++ '}' :: (body ++ closingTag name))

theorem environmentSource_eq (name body : List Char) :
    environmentSource name body =
      (Environment.openingName (String.ofList name)).toList ++ (body ++ closingTag name) := by
  rw [Environment.toList_openingName, ← tag_append]
  rfl

theorem tags_append_eq (name body : List Char) :
    "\\begin\x7b".toList ++ name ++ ['}'] ++ body ++ ("\\end\x7b".toList ++ name ++ ['}']) =
      environmentSource name body := by
  rw [environmentSource_eq, Environment.toList_openingName, closingTag_eq]
  simp

section Ignored

variable (hname : ∀ c ∈ name, c ∉ structural) {body : List Char}

include hname

/-- The closing tag of such an environment does not overlap with itself. -/
theorem unbordered_closingTag : Text.Unbordered (closingTag name) := by
  have htag : closingTag name = '\\' :: ("end\x7b".toList ++ name ++ ['}']) := rfl
  rw [htag]
  refine Text.unbordered_of_head ?_
  rw [List.mem_append, List.mem_append, not_or, not_or]
  exact ⟨⟨by decide, fun hmem => hname '\\' hmem (by decide)⟩, by decide⟩

/-- However much is passed over with the opening, it ends before the closing tag. -/
theorem length_le_of_opening (hline : ∀ c ∈ name, Token.isLineEnd c = false) {e : Environment}
    {n : Nat} (hopening : e.opening.name = Environment.openingName (String.ofList name))
    (h : e.opening.length? (environmentSource name body) = some n) :
    ∃ k ≤ body.length, n = (Environment.openingName (String.ofList name)).length + k := by
  rw [Command.length?, hopening, environmentSource_eq, Text.stripFront?_append] at h
  obtain ⟨k, hk, rfl⟩ := Option.map_eq_some_iff.mp h
  exact ⟨k, argumentsLength?_le hname hline hk, rfl⟩

/-- An environment that is ignored is passed over to the end of its closing tag. -/
theorem leads_ignored (hline : ∀ c ∈ name, Token.isLineEnd c = false)
    (hfree : s.modes.top.isOpaque = false) (hmath : String.ofList name ∉ mathEnvironments)
    (hbody : ¬ closingTag name <:+: body) (hrest : s.rest = environmentSource name body)
    {found : Match Environment}
    (hfound : x.registry.environment? (Environment.openingName (String.ofList name)) s.rest =
      some found) (haction : found.signature.action = .ignore) :
    ∃ t, x.Leads s t ∧ t.rest = [] ∧ Agrees s t := by
  have hbrace : '}' ∉ name := fun hmem => hname '}' hmem (by decide)
  obtain ⟨hleads, hhides, -, hagrees, hdrop⟩ :=
    step_ignoredBraced hfree hbrace hmath hrest hfound haction
  -- the opening may have taken some of the body with it, but nothing of the closing tag
  obtain ⟨front, hidden, hsplit, hrest'⟩ : ∃ front hidden,
      front ++ hidden = '{' :: name ++ ['}'] ++ body ∧
        (x.step s).rest = hidden ++ closingTag name := by
    rw [hdrop, hrest]
    split
    · refine ⟨[], _, rfl, ?_⟩
      show ('{' :: (name ++ '}' :: (body ++ closingTag name))) = _
      simp
    · obtain ⟨hmem, hlength⟩ := mem_of_longest?_eq_some hfound
      have hopening := (List.mem_filter.mp hmem).2
      rw [hrest] at hlength
      obtain ⟨k, hk, hn⟩ := length_le_of_opening hname hline (by simpa using hopening) hlength
      refine ⟨'{' :: name ++ ['}'] ++ body.take k, body.drop k, ?_, ?_⟩
      · rw [List.append_assoc, List.take_append_drop]
      · rw [hn, environmentSource_eq, ← String.length_toList, List.drop_length_add_append,
          List.drop_append_of_le_length hk]
  have hend : (Terminator.braced name).length? (closingTag name) =
      some (closingTag name).length := by
    have happend : (Terminator.braced name).length? (closingTag name ++ []) = _ :=
      Terminator.length?_command_append trivial
    rwa [List.append_nil] at happend
  -- the closing tag is not found any earlier: it does not stand in the body, nor overlap with it
  have hfirst : ∀ back, back ≠ [] → back <:+ hidden →
      (Terminator.braced name).length? (back ++ closingTag name) = none := by
    intro back hback hsuffix
    have hwithin : back <:+ '{' :: name ++ ['}'] ++ body :=
      hsuffix.trans (hsplit ▸ List.suffix_append front hidden)
    have hbefore : (Terminator.braced name).length? (back ++ (closingTag name ++ [])) = none :=
      Terminator.length?_before hbrace (unbordered_closingTag hname) hbody hback hwithin
    rwa [List.append_nil] at hbefore
  obtain ⟨t, hleads', htrest, -, hagrees'⟩ := Hides.leads_end (x := x) hhides hrest'
    (List.cons_ne_nil _ _) hend hfirst
  rw [List.drop_length] at htrest
  exact ⟨t, hleads.trans hleads', htrest, hagrees.trans hagrees'⟩

end Ignored

/-- Words before an ignored environment are all that is left. -/
theorem readsAs_ignored {settings : Settings} {name : String}
    (hmem : name ∈ settings.ignoredEnvironments) (hne : name.toList ≠ [])
    (hname : ∀ c ∈ name.toList, c ∉ structural)
    (hline : ∀ c ∈ name.toList, Token.isLineEnd c = false) (hleaves : settings.Leaves name)
    (hmath : name ∉ mathEnvironments) {words body : List Char}
    (hwords : ∀ c ∈ words, c.isAlpha = true) (hbody : ¬ closingTag name.toList <:+: body) :
    (ofSettings settings).ReadsAs (words ++ environmentSource name.toList body)
      (String.ofList words) := by
  intro origin
  have hsingle : ¬ [' ', ' '] <:+: words := by
    rintro ⟨front, back, rfl⟩
    exact absurd (hwords ' ' (by simp)) (by decide)
  obtain ⟨s, hleads, hsrest, htold⟩ := leads_prose (x := ofSettings settings)
    (s := .start (words ++ environmentSource name.toList body) origin) rfl rfl
    (fun c hc => .inl (hwords c hc)) hsingle (fun h => nomatch h) rfl rfl
  -- after the words the state is one of prose, where the environment is opened
  have hfree : s.modes.top.isOpaque = false := by rw [htold.modes_eq]; rfl
  have hbackslash : '\\' ∉ name.toList := fun hmem => hname '\\' hmem (by decide)
  obtain ⟨found, hfound, haction⟩ := Settings.ignores_of_mem hmem hne hbackslash hleaves
    (body ++ closingTag name.toList)
  have hsource := environmentSource_eq name.toList body
  rw [String.ofList_toList] at hsource
  rw [← hsource, ← hsrest] at hfound
  obtain ⟨t, hleads', htrest, hagrees⟩ := leads_ignored (x := ofSettings settings) hname hline hfree
    (by rwa [String.ofList_toList]) hbody hsrest (by rw [String.ofList_toList]; exact hfound)
    haction
  -- words and environment together are the whole source
  have hreaches : (ofSettings settings).Reaches
      (String.ofList (words ++ environmentSource name.toList body)).toList origin t := by
    rw [String.toList_ofList]
    exact Reaches.start.leads (hleads.trans hleads')
  refine ⟨_, hreaches.result_eq_ok htrest, ?_⟩
  show t.builder.plain = _
  rw [hagrees.plain_eq, htold.plain_eq]
  exact String.empty_append

/-! ## Math environments -/

/-- A formula that has shown something has a text in its place. -/
theorem substitute_ne_empty {mode : Mode} {punctuation : Option Char}
    (h : InFormula s t mode false punctuation) (hmath : mode.isMath = true) :
    x.substitute t ≠ "" := by
  have hmode : (begun t).pop.mode.isText = false := by
    show t.modes.top.isText = false
    rw [h.top_eq, ← Bool.not_eq_true]
    exact Mode.not_isText_of_isMath hmath
  have hempty : (begun t).pop.formula.empty = false := h.empty_eq
  have hword (vowel : Bool) : ((begun t).pop.word x.options.language .singular vowel).toList ≠ [] :=
    Placeholder.toList_word_ne_nil _ _ _ _
  rw [substitute, standIn]
  simp only [hmode, hempty, Bool.false_eq_true, if_false]
  intro hnone
  have hnone' := congrArg String.toList hnone
  -- with the space in front or without it, the word is there
  split at hnone'
  · simp [String.toList_append, hword] at hnone'
  · simp [String.toList_append, hword] at hnone'

/-- A math environment is read as something, whatever the settings say. -/
theorem not_readsAs_math {name : String} (hmath : name ∈ mathEnvironments) :
    ¬ x.ReadsAs (environmentSource name.toList ['x']) "" := by
  intro h
  -- the names in the table have none of the characters that arguments are made of
  have hfacts : mathEnvironments.all (fun name => name.toList.all fun c =>
      !structural.contains c) = true := by decide +kernel
  have hname : ∀ c ∈ name.toList, c ∉ structural := by
    intro c hc
    simpa using List.all_eq_true.mp (List.all_eq_true.mp hfacts name hmath) c hc
  have hbrace : '}' ∉ name.toList := fun hmem => hname '}' hmem (by decide)
  have hmath' : String.ofList name.toList ∈ mathEnvironments := by rwa [String.ofList_toList]
  have hmode : (formulaMode name.toList).isMath = true := by
    unfold formulaMode
    split <;> rfl
  -- the body begins with no argument, so that the opening takes its tag only
  have hnone : argumentRun (['x'] ++ closingTag name.toList) = [] := by
    refine argumentRun_eq_nil hname (by simp) ?_
    rintro ⟨group, after, hgroup, -⟩
    exact absurd (List.cons.inj hgroup).1 (by decide)
  obtain ⟨s, hs⟩ : ∃ s, s = State.start (environmentSource name.toList ['x']) 0 := ⟨_, rfl⟩
  have hrest : s.rest = "\\begin".toList ++ '{' :: (name.toList ++ '}' ::
      (['x'] ++ closingTag name.toList)) := by rw [hs]; rfl
  obtain ⟨hin, hrest'⟩ := step_environment_opening (x := x) (by rw [hs]; rfl) (by rw [hs]; rfl)
    hbrace hmath' hrest
  rw [hnone, List.sum_nil, List.drop_zero] at hrest'
  obtain ⟨t, hbody, htrest, ht⟩ := leads_simple_body hin hmode (by decide) rfl hrest'
  have hclosing : t.rest = "\\end".toList ++ '{' :: (name.toList ++ '}' :: []) := by
    rw [htrest]
    exact List.append_assoc _ _ _
  obtain ⟨hend, hplain⟩ := step_environment_closing (x := x)
    (by rw [ht.top_eq]; exact Mode.isOpaque_of_isMath hmode) hbrace hmath' hclosing
  have hopens : x.Leads s (x.step s) :=
    leads_step_before (List.cons_ne_nil _ _) (by decide) hrest
  have hcloses : x.Leads t (x.step t) :=
    leads_step_before (List.cons_ne_nil _ _) (by decide) hclosing
  have hreaches : x.Reaches (String.ofList (environmentSource name.toList ['x'])).toList 0
      (x.step t) := by
    rw [String.toList_ofList]
    exact Reaches.start.leads (hs ▸ hopens.trans (hbody.trans hcloses))
  obtain ⟨text, hresult, htext⟩ := h 0
  rw [hreaches.result_eq_ok hend] at hresult
  -- read as nothing, the source would leave no placeholder
  have hnothing : (x.step t).builder.plain = "" := by
    rw [← htext, ← Except.ok.inj hresult]
    rfl
  have hstart : t.builder.plain = "" := by
    rw [ht.agrees.plain_eq, hs]
    rfl
  rw [hplain, hstart, String.empty_append] at hnothing
  exact substitute_ne_empty ht hmode hnothing

/-- An environment that the settings list as ignored, with a name of letters and perhaps a star, and
    that no other entry is about, leaves nothing but the words before it, whatever its body holds
    besides its closing tag.  This is so for exactly those environments whose body is not a formula
    anyway. -/
theorem ignored_environments_are_hidden_iff (settings : Settings) (name : String)
    (hmem : name ∈ settings.ignoredEnvironments)
    (hname : ∃ letters : List Char, letters ≠ [] ∧ (∀ c ∈ letters, c.isAlpha = true) ∧
      (name.toList = letters ∨ name.toList = letters ++ ['*']))
    (hleaves : ∀ key ∈ settings.environments,
      key ≠ name ∧ ¬ (Environment.openingName name).toList <+: key.toList) :
    (∀ words body : List Char, (∀ c ∈ words, c.isAlpha = true) →
      ¬ "\\end\x7b".toList ++ name.toList ++ ['}'] <:+: body →
      (ofSettings settings).ReadsAs
        (words ++ ("\\begin\x7b".toList ++ name.toList ++ ['}'] ++ body ++
          ("\\end\x7b".toList ++ name.toList ++ ['}']))) (String.ofList words)) ↔
      name ∉ mathEnvironments := by
  obtain ⟨letters, hletters, halpha, hstar⟩ := hname
  have hchars : ∀ c ∈ name.toList, (c.isAlpha || c == '*') = true := by
    intro c hc
    rcases hstar with heq | heq
    · rw [heq] at hc
      simp [halpha c hc]
    · rw [heq, List.mem_append, List.mem_singleton] at hc
      rcases hc with hc | rfl
      · simp [halpha c hc]
      · rfl
  have hne : name.toList ≠ [] := by
    rcases hstar with heq | heq <;> simp [heq, hletters]
  have hstructural : ∀ c ∈ name.toList, c ∉ structural := by
    intro c hc
    have hnone : structural.all (fun c => !(c.isAlpha || c == '*')) = true := by decide
    exact Text.not_mem_of_class hnone (hchars c hc)
  have hline : ∀ c ∈ name.toList, Token.isLineEnd c = false := by
    intro c hc
    have hnone : (['\n', '\r'] : List Char).all (fun c => !(c.isAlpha || c == '*')) = true := by
      decide
    have hends := Text.not_mem_of_class hnone (hchars c hc)
    simpa [Token.isLineEnd] using hends
  -- the body `x` shows what happens to names in the table
  constructor
  · intro hhidden hmath
    have hreads := hhidden [] ['x'] (by simp) ?_
    · rw [tags_append_eq, List.nil_append] at hreads
      exact not_readsAs_math hmath hreads
    · intro hwithin
      have hlength := hwithin.length_le
      simp at hlength
  · intro hmath words body hwords hbody
    rw [tags_append_eq]
    exact readsAs_ignored hmem hne hstructural hline hleaves hmath hwords hbody

/-- A comment environment, with another environment in its body and the tag that would close it. -/
theorem ignored_environments_are_hidden_iff_comment :
    (ofSettings { ignoredEnvironments := ["comment*"] }).ReadsAs
      "see\\begin\x7bcomment*\x7d$x\\end\x7bcomment\x7d\\end\x7bcomment*\x7d".toList "see" := by
  -- `comment*` is in no table of math names, so that its body is hidden as configured
  have hhidden := (ignored_environments_are_hidden_iff { ignoredEnvironments := ["comment*"] }
    "comment*" (by simp) ⟨"comment".toList, by decide, by simp, .inr rfl⟩ (by simp)).mpr
    (by decide +kernel)
  have hreads := hhidden "see".toList "$x\\end\x7bcomment\x7d".toList (by simp) (by decide)
  have hsource : "see".toList ++ ("\\begin\x7b".toList ++ "comment*".toList ++ ['}'] ++
      "$x\\end\x7bcomment\x7d".toList ++ ("\\end\x7b".toList ++ "comment*".toList ++ ['}'])) =
      "see\\begin\x7bcomment*\x7d$x\\end\x7bcomment\x7d\\end\x7bcomment*\x7d".toList := by
    decide
  rwa [hsource, String.ofList_toList] at hreads

/-- Environments of formulas are shown although the settings list them. -/
theorem ignored_formula_is_shown :
    ¬ ∀ (settings : Settings) (name : String), settings.options.strict = false →
      name ∈ settings.ignoredEnvironments →
      (∃ letters : List Char, letters ≠ [] ∧ (∀ c ∈ letters, c.isAlpha = true) ∧
        (name.toList = letters ∨ name.toList = letters ++ ['*'])) →
      (∀ key ∈ settings.environments,
        key ≠ name ∧ ¬ (Environment.openingName name).toList <+: key.toList) →
      ∀ words body : List Char, (∀ c ∈ words, c.isAlpha = true) →
        ¬ "\\end\x7b".toList ++ name.toList ++ ['}'] <:+: body →
        (ofSettings settings).ReadsAs
          (words ++ ("\\begin\x7b".toList ++ name.toList ++ ['}'] ++ body ++
            ("\\end\x7b".toList ++ name.toList ++ ['}']))) (String.ofList words) := by
  intro h
  have hreads := h { options := { strict := false }, ignoredEnvironments := ["align"] } "align" rfl
    (by simp) ⟨"align".toList, by decide, by simp, .inl rfl⟩ (by simp) [] ['x'] (by simp)
    (by decide)
  rw [tags_append_eq, List.nil_append] at hreads
  exact not_readsAs_math (by decide +kernel) hreads

end Extractor

end ProseLens
