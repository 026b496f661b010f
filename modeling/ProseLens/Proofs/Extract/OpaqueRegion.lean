import ProseLens.Proofs.Extract.Dispatch
import ProseLens.Proofs.Extract.Hidden
import ProseLens.Proofs.Text.Occurrence

/-!
# Opaque regions

An ignored environment hides everything from its opening to its terminator, and a chunk of code
everything from its opener to an at sign.  A signature with arguments has them skipped together with
the opening, while one without any leaves the name in braces to be passed over with the body; the
terminator cannot stand in that name, so the end is the same.

## Key results

- `step_ignoredOpening`, `step_chunkOpener`: what is hidden after an opening
- `conceals_of_hides`: a hidden stretch ends at the first terminator and shows nothing
-/

namespace ProseLens

/-- Only an environment that is known by its bare name swallows its arguments unseen. -/
theorem Signature.Environment.arguments_eq_nil {prototype : String} {action : Action}
    {e : Environment} (h : ofPrototype? prototype action = some e)
    (hall : e.ignoresAllArguments = true) : e.opening.arguments = [] := by
  unfold ofPrototype? at h
  split at h
  -- an explicit prototype keeps its arguments, and only a bare name ignores them all
  · split at h
    · obtain ⟨opening, -, rfl⟩ := Option.map_eq_some_iff.mp h
      cases hall
    · cases h
  · split at h
    · split at h
      · cases h
      · split at h
        · cases h
        · cases h
        · cases h
          cases hall
    · split at h
      · cases h
      · cases h
        rfl

/-- An environment without arguments takes its opening and nothing else. -/
theorem Signature.Registry.length_of_environment? {r : Registry} {opening : String}
    {cs : List Char} {found : Match Environment} (h : r.environment? opening cs = some found)
    (harguments : found.signature.opening.arguments = []) : found.length = opening.length := by
  obtain ⟨hmem, hlength⟩ := mem_of_longest?_eq_some h
  have hname : found.signature.opening.name = opening := by
    simpa using (List.mem_filter.mp hmem).2
  unfold Command.length? at hlength
  split at hlength
  · cases hlength
  · rw [harguments, hname] at hlength
    simpa [argumentsLength?] using hlength.symm

/-- The opener of a chunk ends where its label does. -/
theorem Token.chunkOpener?_append {label body : List Char}
    (hline : ∀ c ∈ label, isLineEnd c = false) (hlabel : ¬ ['>', '>', '='] <:+: label) :
    chunkOpener? ('<' :: '<' :: (label ++ (['>', '>', '='] ++ body))) =
      some (label.length + 5) := by
  have hunbordered : Text.Unbordered ['>', '>', '='] := by decide
  -- the opener ends on its own line, of which the body may hold a part
  have hline' : (label ++ (['>', '>', '='] ++ body)).takeWhile (fun c => !isLineEnd c) =
      label ++ (['>', '>', '='] ++ body.takeWhile fun c => !isLineEnd c) := by
    rw [List.takeWhile_append_of_pos (by simpa using hline),
      List.takeWhile_append_of_pos (by simp [isLineEnd])]
  have hindex : Text.indexOf? ['>', '>', '=']
      (label ++ (['>', '>', '='] ++ body.takeWhile fun c => !isLineEnd c)) = some label.length :=
    Text.indexOf?_append (by decide) fun back hback hsuffix =>
      hunbordered.not_prefix hlabel hback hsuffix
  have hstrip : Text.stripFront? ['<', '<'] ('<' :: '<' :: (label ++ (['>', '>', '='] ++ body))) =
      some (label ++ (['>', '>', '='] ++ body)) := Text.stripFront?_append ['<', '<'] _
  rw [chunkOpener?, hstrip]
  dsimp only
  rw [hline', hindex]
  rfl

namespace Extract

/-- The terminator of an environment cannot begin within its name in braces. -/
theorem Terminator.not_stands_in_name {name back : List Char} (hname : '}' ∉ name)
    (hback : back ≠ []) (hsuffix : back <:+ '{' :: name ++ ['}']) (cs : List Char) :
    ¬ (Terminator.braced name).Stands (back ++ cs) := by
  rintro ⟨after, hafter, -⟩
  rcases List.suffix_concat_iff.mp hsuffix with hnil | ⟨inner, rfl, hinner⟩
  · exact hback hnil
  -- up to its first closing brace the terminator is longer than the name
  have hlength : inner.length ≤ name.length + 1 := hinner.length_le
  have hfront : '}' ∉ "\\end\x7b".toList ++ name := by
    rw [List.mem_append]
    rintro (hmem | hmem)
    · exact absurd hmem (by decide)
    · exact hname hmem
  have hsplit : inner ++ ('}' :: cs) = ("\\end\x7b".toList ++ name) ++ ('}' :: after) := by
    rw [List.append_cons, List.append_cons ("\\end\x7b".toList ++ name)]
    exact hafter
  have hlong : ("\\end\x7b".toList ++ name).length = 5 + name.length := List.length_append
  rcases List.append_eq_append_iff.mp hsplit with ⟨more, hmore, hcons⟩ | ⟨more, hmore, -⟩
  · cases more with
    | nil =>
      rw [hmore, List.append_nil] at hlong
      omega
    | cons c more =>
      have hc : '}' = c := (List.cons.inj hcons).1
      apply hfront
      rw [hmore, ← hc]
      simp
  · rw [hmore, List.length_append] at hlength
    omega

/-- The terminator of an environment first stands where it is put, if it is not in the body and does
    not overlap with itself. -/
theorem Terminator.length?_before {name body back after : List Char} (hname : '}' ∉ name)
    (hunbordered : Text.Unbordered (braced name).command)
    (hbody : ¬ (braced name).command <:+: body) (hback : back ≠ [])
    (hsuffix : back <:+ '{' :: name ++ ['}'] ++ body) :
    (braced name).length? (back ++ ((braced name).command ++ after)) = none := by
  apply length?_eq_none
  rcases Text.suffix_append_cases hsuffix with hwithin | ⟨more, hmore, hmore', rfl⟩
  · rintro ⟨later, hlater, -⟩
    exact hunbordered.not_prefix hbody hback hwithin ⟨later, hlater.symm⟩
  · rw [List.append_assoc]
    exact not_stands_in_name hname hmore hmore' _

/-- The terminator stands at byte `place` of the source. -/
def Terminator.StandsAt (terminator : Terminator) (source : String) (place : Nat) : Prop :=
  ∃ cs, Text.dropBytes? source.toList place = some cs ∧ terminator.Stands cs

instance (terminator : Terminator) (source : String) (place : Nat) :
    Decidable (terminator.StandsAt source place) :=
  match h : Text.dropBytes? source.toList place with
  | none => isFalse fun ⟨_, hcs, _⟩ => by
      rw [h] at hcs
      cases hcs
  | some cs => decidable_of_iff (terminator.Stands cs)
      ⟨fun hstands => ⟨cs, h, hstands⟩, fun ⟨_, hcs, hstands⟩ => by
        rw [h] at hcs
        rwa [Option.some.inj hcs]⟩

end Extract

namespace Extractor

open Extract State Signature

/-- Nothing shows of the source from the reading position of `s` on.  If the terminator stands at
    byte `start` or later, this ends just after the first place where it does, with all as it was in
    `s`, and else the extraction ends with the plain text that it had in `s`. -/
def Conceals (x : Extractor) (source : String) (origin : Nat) (s : State) (start : Nat)
    (terminator : Terminator) : Prop :=
  (∀ place, start ≤ place → terminator.StandsAt source place →
    (∀ earlier, start ≤ earlier → earlier < place → ¬ terminator.StandsAt source earlier) →
    ∃ t, x.Reaches source.toList origin t ∧
      t.position = place + Text.byteLength terminator.command ∧
      t.builder.plain = s.builder.plain ∧ t.placeholders = s.placeholders ∧
      t.trailing = s.trailing ∧ t.modes = s.modes) ∧
  ((∀ place, start ≤ place → ¬ terminator.StandsAt source place) →
    ∃ text, (x.extract source origin).result = .ok text ∧ text.plain = s.builder.plain)

variable {x : Extractor} {source : String} {origin : Nat} {s t : State}

/-- An extraction that comes to the end of its source gives what was recorded. -/
theorem Reaches.result_eq_ok (h : x.Reaches source.toList origin s) (hrest : s.rest = []) :
    (x.extract source origin).result = .ok s.builder.build := by
  rw [extract, h.run_eq_finished hrest]

/-- The unread text of a state that is reached is the source from its position on. -/
theorem Reaches.dropBytes? (h : x.Reaches source.toList origin s) :
    Text.dropBytes? source.toList s.position = some s.rest := by
  obtain ⟨front, hsource, hposition⟩ := h.exists_append
  rw [hsource, ← hposition, Text.dropBytes?_append]

/-- The reading position is told by what is unread. -/
theorem Reaches.position_eq (h : x.Reaches source.toList origin s) {place : Nat} {read : List Char}
    (hplace : Text.dropBytes? source.toList place = some (read ++ s.rest)) :
    s.position = place + Text.byteLength read := by
  obtain ⟨front, hsource, hposition⟩ := h.exists_append
  obtain ⟨front', hsource', rfl⟩ := Text.exists_append_of_dropBytes?_eq_some hplace
  have hbytes := congrArg Text.byteLength (hsource'.trans hsource)
  simp only [Text.byteLength_append] at hbytes
  omega

/-! ## Hidden stretches in terms of places -/

/-- A hidden stretch ends at the first terminator and shows nothing.  What lies between the reading
    position and the place from which on the terminator is looked for must not hold it. -/
theorem conceals_of_hides {terminator : Terminator} {start : Nat} {lead behind : List Char}
    (hreaches : x.Reaches source.toList origin t) (hhides : t.Hides terminator.length?)
    (hmodes : t.modes.pop = s.modes) (hagrees : Agrees s t)
    (hrest : t.rest = lead ++ behind)
    (hstart : Text.dropBytes? source.toList start = some behind)
    (hlead : ∀ back, back ≠ [] → back <:+ lead → ∀ cs, ¬ terminator.Stands (back ++ cs)) :
    x.Conceals source origin s start terminator := by
  constructor
  · intro place hle hstands hfirst
    obtain ⟨cs, hcs, after, rfl, hprecedes⟩ := hstands
    obtain ⟨body, hbehind, hplace⟩ := Text.exists_append_of_dropBytes? hstart hcs hle
    have hrest' : t.rest = (lead ++ body) ++ (terminator.command ++ after) := by
      rw [hrest, hbehind, List.append_assoc]
    have hearlier : ∀ back, back ≠ [] → back <:+ lead ++ body →
        terminator.length? (back ++ (terminator.command ++ after)) = none := by
      intro back hback hsuffix
      apply Terminator.length?_eq_none
      rcases Text.suffix_append_cases hsuffix with ⟨front, hfront⟩ | ⟨more, hmore, hmore', rfl⟩
      · intro hstands
        -- such a place would come before the first one
        have hdrop : Text.dropBytes? source.toList (start + Text.byteLength front) =
            some (back ++ (terminator.command ++ after)) :=
          Text.dropBytes?_of_dropBytes? hstart (by rw [hbehind, ← hfront, List.append_assoc])
        have hbytes := Text.length_le_byteLength back
        have hpos := List.length_pos_iff.mpr hback
        rw [← hfront, Text.byteLength_append] at hplace
        exact hfirst _ (by omega) (by omega) ⟨_, hdrop, hstands⟩
      · rw [List.append_assoc]
        exact hlead more hmore hmore' _
    obtain ⟨u, hleads, hu, humodes, huagrees⟩ := Hides.leads_end (x := x) hhides hrest'
      (by simp [terminator.command_ne_nil]) (Terminator.length?_command_append hprecedes) hearlier
    rw [List.drop_left] at hu
    have hureaches := hreaches.leads hleads
    have hall := hagrees.trans huagrees
    refine ⟨u, hureaches, hureaches.position_eq ?_, hall.plain_eq, hall.placeholders_eq,
      hall.trailing_eq, humodes.trans hmodes⟩
    rw [hu]
    exact hcs
  · intro hnever
    have hnone : ∀ back, back ≠ [] → back <:+ lead ++ behind → terminator.length? back = none := by
      intro back hback hsuffix
      apply Terminator.length?_eq_none
      rcases Text.suffix_append_cases hsuffix with ⟨front, hfront⟩ | ⟨more, hmore, hmore', rfl⟩
      · intro hstands
        have hdrop := Text.dropBytes?_of_dropBytes? hstart hfront.symm
        exact hnever _ (Nat.le_add_right _ _) ⟨back, hdrop, hstands⟩
      · exact hlead more hmore hmore' _
    obtain ⟨u, hleads, hu, huagrees⟩ := Hides.leads_all (x := x) hhides hrest hnone
    exact ⟨_, (hreaches.leads hleads).result_eq_ok hu, (hagrees.trans huagrees).plain_eq⟩

/-! ## Openings -/

/-- The opening of an ignored environment: what comes after it is hidden. -/
theorem openEnvironment_of_ignored {tag : EnvironmentTag} {found : Match Environment}
    (hmath : tag.isMath = false)
    (hfound : x.registry.environment? (String.ofList (s.rest.take (tag.control + tag.group)))
      s.rest = some found) (haction : found.signature.action = .ignore) :
    x.openEnvironment s tag =
      { s.keepPending.push .ignoredEnvironment with terminator := some tag.terminator }.markup
        (if found.signature.ignoresAllArguments then tag.control else found.length) := by
  unfold openEnvironment openBody
  have hfound' : x.registry.environment? (String.ofList (s.keepPending.rest.take
      (tag.control + tag.group))) s.keepPending.rest = some found := hfound
  simp only [hmath, hfound', haction]
  rfl

/-- A step at the opening of an ignored environment. -/
theorem step_ignoredOpening (hfree : s.modes.top.isOpaque = false) {n : Nat}
    {attached : Option (List Char)} {tag : EnvironmentTag} {found : Match Environment}
    (hcontrol : Token.control? s.rest = some n)
    (htoken : Control.ofToken (s.rest.take n) = .opening attached)
    (htag : EnvironmentTag.read s.rest (s.rest.take n).length attached = tag)
    (hmath : tag.isMath = false)
    (hfound : x.registry.environment? (String.ofList (s.rest.take (tag.control + tag.group)))
      s.rest = some found) (haction : found.signature.action = .ignore) :
    x.Leads s (x.step s) ∧ (x.step s).Hides tag.terminator.length? ∧
      (x.step s).modes.pop = s.modes ∧ Agrees s (x.step s) ∧
      (x.step s).rest = s.rest.drop
        (if found.signature.ignoresAllArguments then tag.control else found.length) := by
  obtain ⟨cs, hcs⟩ : ∃ cs, s.rest = '\\' :: cs := by
    unfold Token.control? at hcontrol
    split at hcontrol
    · next c cs heq => exact ⟨_, heq⟩
    · cases hcontrol
  -- a control sequence is more than a lone backslash
  have hstuck : ¬ s.Stuck := by
    rintro ⟨hlone, -⟩
    rw [hlone] at hcontrol
    cases hcontrol
  -- the whole opening is one piece of markup, which enters the mode and sets the terminator
  have hstep : x.step s = settle ({ (begun s).keepPending.push .ignoredEnvironment with
      terminator := some tag.terminator }.markup
        (if found.signature.ignoresAllArguments then tag.control else found.length)) := by
    rw [step_eq_settle hcs, construct_control (s := begun s) hfree hcontrol, control]
    dsimp only [rest_begun]
    rw [htoken]
    dsimp only [rest_begun]
    rw [htag, openEnvironment_of_ignored (s := begun s) hmath hfound haction]
  refine ⟨leads_step (by simp [hcs]) hstuck, ?_, ?_, ?_, ?_⟩
  · rw [hstep]
    exact .environment (by simp [push]) (by simp)
  · rw [hstep, modes_settle, modes_markup]
    rfl
  · rw [hstep]
    refine .settle (.markup ?_ _)
    exact ⟨rfl, rfl, rfl⟩
  · rw [hstep, rest_settle, rest_markup]
    rfl

/-- What is looked up at a place is looked up in the text from there on. -/
theorem Registry.environment?_of_environmentAt? {r : Registry} {opening : String} {place : Nat}
    {cs : List Char} {found : Located Environment}
    (hcs : Text.dropBytes? source.toList place = some cs)
    (h : r.environmentAt? opening source place = some found) :
    ∃ n, r.environment? opening cs = some ⟨found.signature, n⟩ ∧
      Text.dropBytes? source.toList found.stop = some (cs.drop n) := by
  simp only [Registry.environmentAt?, longestAt?, hcs, Option.bind_eq_bind, Option.bind_some,
    Option.bind_eq_some_iff, Option.pure_def, Option.some.injEq] at h
  obtain ⟨best, hbest, rfl⟩ := h
  exact ⟨best.length, hbest,
    Text.dropBytes?_of_dropBytes? hcs (List.take_append_drop best.length cs).symm⟩

/-- What swallows its arguments unseen takes nothing but its opening. -/
theorem Registry.length_of_ignoresAll {r : Registry} {opening : String} {cs : List Char}
    {found : Match Environment} (hfiled : ∀ e ∈ r.filedEnvironments, ∃ prototype action,
      Environment.ofPrototype? prototype action = some e)
    (h : r.environment? opening cs = some found)
    (hall : found.signature.ignoresAllArguments = true) : found.length = opening.length := by
  have hmem := (mem_of_longest?_eq_some h).1
  obtain ⟨prototype, action, hprototype⟩ := hfiled _ (List.mem_filter.mp hmem).1
  exact Registry.length_of_environment? h (Environment.arguments_eq_nil hprototype hall)

/-- A step at the opening of an ignored environment with its name in braces. -/
theorem step_ignoredBraced (hfree : s.modes.top.isOpaque = false) {name after : List Char}
    (hname : '}' ∉ name) (hmath : String.ofList name ∉ mathEnvironments)
    (hrest : s.rest = "\\begin".toList ++ '{' :: (name ++ '}' :: after))
    {found : Match Environment}
    (hfound : x.registry.environment? (Environment.openingName (String.ofList name)) s.rest =
      some found) (haction : found.signature.action = .ignore) :
    x.Leads s (x.step s) ∧ (x.step s).Hides (Terminator.braced name).length? ∧
      (x.step s).modes.pop = s.modes ∧ Agrees s (x.step s) ∧
      (x.step s).rest = s.rest.drop
        (if found.signature.ignoresAllArguments then "\\begin".toList.length
          else found.length) := by
  have hcontrol : Token.control? s.rest = some "\\begin".toList.length := by
    rw [hrest]
    exact Token.control?_word "begin".toList (by decide) (by decide) (by simp; decide)
  have htoken : s.rest.take "\\begin".toList.length = "\\begin".toList := by
    rw [hrest, List.take_left]
  -- the name reaches to the first closing brace
  have htag : EnvironmentTag.read s.rest (s.rest.take "\\begin".toList.length).length none =
      ⟨"\\begin".toList.length, name.length + 2, name, .braced name⟩ := by
    rw [htoken, hrest]
    exact EnvironmentTag.read_braced "\\begin".toList after hname
  have hopening := ofList_take_opening name after
  rw [← hrest] at hopening
  rw [← hopening] at hfound
  exact step_ignoredOpening hfree hcontrol (by rw [htoken]; rfl) htag
    (by simpa [EnvironmentTag.isMath] using hmath) hfound haction

/-- An environment with its name in braces is hidden from its opening on. -/
theorem conceals_braced (hfiled : ∀ e ∈ x.registry.filedEnvironments, ∃ prototype action,
      Environment.ofPrototype? prototype action = some e)
    (hs : x.Reaches source.toList origin s) (hfree : s.modes.top.isOpaque = false)
    {name after : List Char} (hname : '}' ∉ name) (hmath : String.ofList name ∉ mathEnvironments)
    (hrest : s.rest = "\\begin".toList ++ '{' :: (name ++ '}' :: after))
    {found : Located Environment}
    (hfound : x.registry.environmentAt? (Environment.openingName (String.ofList name)) source
      s.position = some found) (haction : found.signature.action = .ignore) :
    x.Conceals source origin s found.stop (.braced name) := by
  obtain ⟨n, hbest, hstop⟩ := Registry.environment?_of_environmentAt? hs.dropBytes? hfound
  obtain ⟨hleads, hhides, hmodes, hagrees, hdrop⟩ :=
    step_ignoredBraced hfree hname hmath hrest hbest haction
  cases hall : found.signature.ignoresAllArguments with
  | false =>
    rw [hall] at hdrop
    refine conceals_of_hides (hs.leads hleads) hhides hmodes hagrees
      (hdrop.trans (List.nil_append _).symm) hstop ?_
    intro back hback hsuffix
    exact absurd (List.suffix_nil.mp hsuffix) hback
  | true =>
    -- the name in braces is passed over with the body
    rw [hall] at hdrop
    have hgroup : s.rest.drop "\\begin".toList.length = ('{' :: name ++ ['}']) ++ after := by
      rw [hrest, List.drop_left, ← List.append_cons]
      rfl
    have hn : n = "\\begin".toList.length + (name.length + 2) := by
      have hlength := Registry.length_of_ignoresAll hfiled hbest hall
      rw [← String.length_toList, Environment.toList_openingName, List.length_append] at hlength
      simpa using hlength
    have hbehind : s.rest.drop n = after := by
      rw [hn, hrest]
      exact drop_tag "\\begin".toList name after
    rw [hbehind] at hstop
    exact conceals_of_hides (hs.leads hleads) hhides hmodes hagrees (hdrop.trans hgroup) hstop
      fun back hback hsuffix cs => Terminator.not_stands_in_name hname hback hsuffix cs

/-- An environment with its name attached to the control sequence is hidden from its opening on. -/
theorem conceals_attached (hfiled : ∀ e ∈ x.registry.filedEnvironments, ∃ prototype action,
      Environment.ofPrototype? prototype action = some e)
    (hs : x.Reaches source.toList origin s) (hfree : s.modes.top.isOpaque = false) {n : Nat}
    {name : List Char} (hcontrol : Token.control? s.rest = some n)
    (htoken : s.rest.take n = "\\start".toList ++ name)
    (hmath : String.ofList name ∉ mathEnvironments) {found : Located Environment}
    (hfound : x.registry.environmentAt? ("\\start" ++ String.ofList name) source s.position =
      some found) (haction : found.signature.action = .ignore) :
    x.Conceals source origin s found.stop (.attached name) := by
  obtain ⟨m, hbest, hstop⟩ := Registry.environment?_of_environmentAt? hs.dropBytes? hfound
  have hopening : String.ofList (s.rest.take ((s.rest.take n).length + 0)) =
      "\\start" ++ String.ofList name := by
    rw [Nat.add_zero, List.length_take, ← List.take_eq_take_min, htoken, String.ofList_append,
      String.ofList_toList]
  rw [← hopening] at hbest
  have htag : EnvironmentTag.read s.rest (s.rest.take n).length (some name) =
      ⟨(s.rest.take n).length, 0, name, .attached name⟩ := rfl
  obtain ⟨hleads, hhides, hmodes, hagrees, hdrop⟩ := step_ignoredOpening hfree hcontrol
    (by rw [htoken]; exact Control.ofToken_start name) htag
    (by simpa [EnvironmentTag.isMath] using hmath) hbest haction
  have hbehind : (x.step s).rest = [] ++ s.rest.drop m := by
    cases hall : found.signature.ignoresAllArguments with
    | false =>
      rw [hall] at hdrop
      exact hdrop
    | true =>
      -- there is nothing after the control sequence that would belong to the opening
      have hm := Registry.length_of_ignoresAll hfiled hbest hall
      rw [String.length_ofList, List.length_take, Nat.add_zero, List.length_take] at hm
      rw [hall] at hdrop
      rw [hdrop, List.nil_append]
      dsimp only at hm ⊢
      rw [hm, List.length_take]
      congr 1
      simp
  refine conceals_of_hides (hs.leads hleads) hhides hmodes hagrees hbehind hstop ?_
  intro back hback hsuffix
  exact absurd (List.suffix_nil.mp hsuffix) hback

/-- A step at the opener of a chunk: the code after it is hidden. -/
theorem step_chunkOpener (hfree : s.modes.top.isOpaque = false)
    (hdialect : x.options.dialect = .rsweave) {n : Nat} {cs : List Char}
    (hrest : s.rest = '<' :: cs) (hopener : Token.chunkOpener? s.rest = some n) :
    x.Leads s (x.step s) ∧ (x.step s).Hides chunkEnd? ∧ (x.step s).modes.pop = s.modes ∧
      Agrees s (x.step s) ∧ (x.step s).rest = s.rest.drop n := by
  have hstuck : ¬ s.Stuck := by
    rintro ⟨hlone, -⟩
    rw [hrest] at hlone
    cases hlone
  -- the chunk is looked for among the characters without a meaning of their own
  have hother : x.construct (begun s) '<' = x.otherCharacter (begun s) '<' :=
    construct_of_free hfree '<'
  have hstep : x.step s = settle (((begun s).push .embeddedCodeChunk).markup n) := by
    rw [step_eq_settle hrest, hother]
    simp [otherCharacter, hdialect, hopener]
  refine ⟨leads_step (by simp [hrest]) hstuck, ?_, ?_, ?_, ?_⟩
  · rw [hstep]
    exact .chunk (by simp [push])
  · rw [hstep, modes_settle, modes_markup]
    rfl
  · rw [hstep]
    refine .settle (.markup ?_ _)
    exact ⟨rfl, rfl, rfl⟩
  · rw [hstep, rest_settle, rest_markup]
    rfl

/-- A chunk of code is hidden from its opener up to the first at sign. -/
theorem conceals_chunk (hs : x.Reaches source.toList origin s)
    (hfree : s.modes.top.isOpaque = false) (hdialect : x.options.dialect = .rsweave)
    {label body : List Char} (hline : ∀ c ∈ label, Token.isLineEnd c = false)
    (hlabel : ¬ ['>', '>', '='] <:+: label)
    (hrest : s.rest = '<' :: '<' :: (label ++ (['>', '>', '='] ++ body))) :
    (∀ code after, body = code ++ '@' :: after → '@' ∉ code →
      ∃ t, x.Reaches source.toList origin t ∧ t.rest = after ∧ t.modes = s.modes ∧ Agrees s t) ∧
    ('@' ∉ body → ∃ t, x.Reaches source.toList origin t ∧ t.rest = [] ∧ Agrees s t) := by
  have hopener : Token.chunkOpener? s.rest = some (label.length + 5) := by
    rw [hrest]
    exact Token.chunkOpener?_append hline hlabel
  obtain ⟨hleads, hhides, hmodes, hagrees, hdrop⟩ := step_chunkOpener hfree hdialect hrest hopener
  have hbody : (x.step s).rest = body := by
    have hsplit : s.rest = ('<' :: '<' :: (label ++ ['>', '>', '='])) ++ body := by
      simp [hrest]
    rw [hdrop, hsplit]
    exact List.drop_left' (by simp)
  -- the chunk does not end anywhere before the first at sign
  have hnone : ∀ code, '@' ∉ code → code ≠ [] → ∀ cs, chunkEnd? (code ++ cs) = none := by
    intro code hcode hne cs
    obtain ⟨c, code, rfl⟩ := List.exists_cons_of_ne_nil hne
    have hc : c ≠ '@' := by
      rintro rfl
      exact hcode List.mem_cons_self
    unfold chunkEnd?
    split
    · next heq => exact absurd (List.cons.inj heq).1 hc
    · rfl
  constructor
  · intro code after hsplit hcode
    rw [hsplit] at hbody
    obtain ⟨t, hleads', hrest', hmodes', hagrees'⟩ := Hides.leads_end (x := x) hhides hbody
      (by simp) rfl fun back hback hsuffix =>
        hnone back (fun hmem => hcode (hsuffix.mem hmem)) hback _
    exact ⟨t, (hs.leads hleads).leads hleads', hrest', hmodes'.trans hmodes,
      hagrees.trans hagrees'⟩
  -- without an at sign all is hidden up to the end of the source
  · intro hat
    obtain ⟨t, hleads', hrest', hagrees'⟩ := Hides.leads_all (x := x) hhides hbody
      fun back hback hsuffix => by
        have hback' := hnone back (fun hmem => hat (hsuffix.mem hmem)) hback []
        rwa [List.append_nil] at hback'
    exact ⟨t, (hs.leads hleads).leads hleads', hrest', hagrees.trans hagrees'⟩

/-- Let all signatures of environments have been read from prototypes.  In a state that is reached
    and that reads constructs, let an ignored environment be opened that is no formula.  From where
    its signature ends, the terminator of the environment is looked for: just after the first one
    the extraction goes on with the plain text, the placeholders, the end of the plain text and the
    modes that it had before, and without one it ends with the plain text that it had.  The same
    holds of a chunk of code and the first at sign after its opener. -/
theorem opaque_regions_leave_no_trace (x : Extractor)
    (hfiled : ∀ e ∈ x.registry.filedEnvironments, ∃ prototype action,
      Environment.ofPrototype? prototype action = some e)
    (source : String) (origin : Nat) (s : State) (hs : x.Reaches source.toList origin s)
    (hmode : s.modes.top ≠ .ignoredEnvironment ∧ s.modes.top ≠ .embeddedCodeChunk) :
    (∀ name found, '}' ∉ name → String.ofList name ∉ mathEnvironments →
      "\\begin\x7b".toList ++ name ++ ['}'] <+: s.rest →
      x.registry.environmentAt? ("\\begin\x7b" ++ String.ofList name ++ "\x7d") source s.position =
        some found → found.signature.action = .ignore →
      x.Conceals source origin s found.stop (.braced name)) ∧
    (∀ n name found, Token.control? s.rest = some n → s.rest.take n = "\\start".toList ++ name →
      String.ofList name ∉ mathEnvironments →
      x.registry.environmentAt? ("\\start" ++ String.ofList name) source s.position =
        some found → found.signature.action = .ignore →
      x.Conceals source origin s found.stop (.attached name)) ∧
    (x.options.dialect = .rsweave → ∀ label body, (∀ c ∈ label, Token.isLineEnd c = false) →
      ¬ ['>', '>', '='] <:+: label → s.rest = ['<', '<'] ++ label ++ ['>', '>', '='] ++ body →
      (∀ code after, body = code ++ '@' :: after → '@' ∉ code →
        ∃ t, x.Reaches source.toList origin t ∧
          t.position = s.position +
            Text.byteLength (['<', '<'] ++ label ++ ['>', '>', '='] ++ code ++ ['@']) ∧
          t.builder.plain = s.builder.plain ∧ t.placeholders = s.placeholders ∧
          t.trailing = s.trailing ∧ t.modes = s.modes) ∧
      ('@' ∉ body →
        ∃ text, (x.extract source origin).result = .ok text ∧ text.plain = s.builder.plain)) := by
  have hfree : s.modes.top.isOpaque = false := Mode.isOpaque_eq_false_iff.mpr hmode
  refine ⟨?_, ?_, ?_⟩
  · intro name found hname hmath hprefix hfound haction
    obtain ⟨after, hafter⟩ := hprefix
    have hrest : s.rest = "\\begin".toList ++ '{' :: (name ++ '}' :: after) := by
      rw [← hafter, ← List.append_cons]
      rfl
    exact conceals_braced hfiled hs hfree hname hmath hrest hfound haction
  · intro n name found hcontrol htoken hmath hfound haction
    exact conceals_attached hfiled hs hfree hcontrol htoken hmath hfound haction
  · intro hdialect label body hline hlabel hrest
    have hrest' : s.rest = '<' :: '<' :: (label ++ (['>', '>', '='] ++ body)) := by
      simpa using hrest
    obtain ⟨hcloses, hnever⟩ := conceals_chunk hs hfree hdialect hline hlabel hrest'
    constructor
    -- the position moves by all that lies between the two states
    · intro code after hbody hcode
      obtain ⟨t, ht, hafter, hmodes, hagrees⟩ := hcloses code after hbody hcode
      refine ⟨t, ht, ht.position_eq ?_, hagrees.plain_eq, hagrees.placeholders_eq,
        hagrees.trailing_eq, hmodes⟩
      rw [hs.dropBytes?, hrest, hafter, hbody]
      simp
    · intro hat
      obtain ⟨t, ht, hend, hagrees⟩ := hnever hat
      exact ⟨_, ht.result_eq_ok hend, hagrees.plain_eq⟩

/-- The body of an environment with a stray brace, a percent sign and another terminator. -/
theorem opaque_regions_leave_no_trace_verbatim :
    ∃ source t, source = "\\begin\x7bverbatim\x7d\x7d\\end\x7bv\x7d%\\end\x7bverbatim\x7d." ∧
      Extractor.builtin.Reaches source.toList 0 t ∧ t.position = 39 ∧ t.builder.plain = "" ∧
      t.modes = {} := by
  have hfiled : ∀ e ∈ Extractor.builtin.registry.filedEnvironments, ∃ prototype action,
      Environment.ofPrototype? prototype action = some e := by
    intro e he
    obtain ⟨prototype, -, hprototype⟩ := List.mem_filterMap.mp he
    exact ⟨prototype, .ignore, hprototype⟩
  have hregions := opaque_regions_leave_no_trace Extractor.builtin hfiled
    "\\begin\x7bverbatim\x7d\x7d\\end\x7bv\x7d%\\end\x7bverbatim\x7d." 0 _ .start (by decide)
  have hlookup : (Extractor.builtin.registry.environmentAt? ("\\begin\x7b" ++
      String.ofList "verbatim".toList ++ "\x7d")
      "\\begin\x7bverbatim\x7d\x7d\\end\x7bv\x7d%\\end\x7bverbatim\x7d." 0).map
        (fun found => (found.signature.action, found.stop)) = some (.ignore, 16) := by
    decide +kernel
  obtain ⟨found, hfound, hpair⟩ := Option.map_eq_some_iff.mp hlookup
  obtain ⟨haction, hstop⟩ := Prod.mk.inj hpair
  obtain ⟨hcloses, -⟩ := hregions.1 "verbatim".toList found (by decide) (by decide +kernel)
    (by decide +kernel) hfound haction
  rw [hstop] at hcloses
  -- the closing tag of another environment does not end this one
  have hfirst : ∀ earlier < 25, 16 ≤ earlier → ¬ (Terminator.braced "verbatim".toList).StandsAt
      "\\begin\x7bverbatim\x7d\x7d\\end\x7bv\x7d%\\end\x7bverbatim\x7d." earlier := by
    decide +kernel
  obtain ⟨t, ht, hposition, hplain, -, -, hmodes⟩ := hcloses 25 (by decide) (by decide +kernel)
    fun earlier hle hlt => hfirst earlier hlt hle
  exact ⟨_, t, rfl, ht, hposition, hplain, hmodes⟩

end Extractor

end ProseLens
