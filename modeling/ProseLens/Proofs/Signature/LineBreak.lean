import ProseLens.Proofs.Signature.Argument
import ProseLens.Proofs.Token.LineBreak

/-!
# Signatures and the other kind of line break

Arguments may run over line breaks, and a comment between two of them ends with one.  The arguments
in the text with expanded line breaks are the expansions of the arguments, so that the same
signature is the best match in both texts.

A backslash before a line break escapes the carriage return alone; the line feed after it has no
meaning in an argument, so that nothing comes of that.

## Key results

- `fits_argument?`, `fits_argumentsLength?`: arguments of one kind, and all arguments of a signature
- `rel_longest?`: the best match is of the same signature
- `Registry.rel_environment?`: as long as no opening on file has a line break in its name
-/

namespace ProseLens.Signature

open Text

/-! ## Arguments -/

/-- Lengths that fit, counted from `taken` and `taken'` on. -/
private def FitsFrom (cs : List Char) (taken taken' n m : Nat) : Prop :=
  ∃ k j, Fits cs k j ∧ n = taken + k ∧ m = taken' + j

/-- Lengths that fit fit behind any front. -/
private theorem FitsFrom.append {cs : List Char} {taken taken' n m : Nat} (front : List Char)
    (h : FitsFrom cs (taken + front.length) (taken' + (crlf front).length) n m) :
    FitsFrom (front ++ cs) taken taken' n m := by
  obtain ⟨k, j, hfits, rfl, rfl⟩ := h
  exact ⟨_, _, hfits.append front, by omega, by omega⟩

/-- An argument is closed in both texts or in neither, at places that fit. -/
private theorem rel_closeArgument (inner : Delimiter) (outer : List Delimiter)
    (taken taken' : Nat) (cs : List Char) :
    Option.Rel (FitsFrom cs taken taken') (closeArgument inner outer taken cs)
      (closeArgument inner outer taken' (crlf cs)) := by
  have hfeed (inner : Delimiter) (outer : List Delimiter) (taken : Nat) (rest : List Char) :
      closeArgument inner outer taken ('\n' :: rest) = closeArgument inner outer (taken + 1) rest :=
    closeArgument_others (show ∀ c ∈ ['\n'], c ∉ structural by simp [structural]) inner outer taken
      rest
  have hreturn (inner : Delimiter) (outer : List Delimiter) (taken : Nat) (rest : List Char) :
      closeArgument inner outer taken ('\r' :: rest) = closeArgument inner outer (taken + 1) rest :=
    closeArgument_others (show ∀ c ∈ ['\r'], c ∉ structural by simp [structural]) inner outer taken
      rest
  -- by induction on the length, since an escaped character is passed over with its backslash
  induction hlength : cs.length using Nat.strongRecOn generalizing cs inner outer taken taken' with
  | ind length ih =>
    cases cs with
    | nil => exact .none
    | cons c cs =>
      rw [List.length_cons] at hlength
      by_cases hbackslash : c = '\\'
      · subst hbackslash
        rw [crlf_cons (by decide)]
        cases cs with
        | nil => exact .none
        | cons d cs =>
          rw [List.length_cons] at hlength
          have hrest := ih cs.length (by omega) inner outer (taken + 2)
            (taken' + (crlf ['\\', d]).length) cs rfl
          by_cases hd : d = '\n'
          · subst hd
            rw [crlf_break, closeArgument, closeArgument, hfeed]
            exact rel_imp hrest (.append ['\\', '\n'])
          · rw [crlf_cons hd, closeArgument, closeArgument]
            rw [crlf_cons (by decide), crlf_cons hd] at hrest
            refine rel_imp hrest fun h => .append ['\\', d] ?_
            rw [crlf_cons (by decide), crlf_cons hd]
            exact h
      · have hrest (inner : Delimiter) (outer : List Delimiter) :=
          ih cs.length (by omega) inner outer (taken + 1) (taken' + (crlf [c]).length) cs rfl
        by_cases hc : c = '\n'
        · subst hc
          rw [crlf_break, hfeed, hreturn, hfeed]
          exact rel_imp (hrest inner outer) (.append ['\n'])
        · rw [crlf_cons hc, closeArgument_cons hbackslash, closeArgument_cons hbackslash]
          split
          · exact .none
          · exact .some ⟨1, 1, ((OnLine.zero cs).cons hc).fits, rfl, rfl⟩
          · rw [crlf_cons hc] at hrest
            refine rel_imp (hrest _ _) fun h => .append [c] ?_
            rw [crlf_cons hc]
            exact h

/-- An argument is found in both texts or in neither, with lengths that fit. -/
theorem fits_argument? (kind : Delimiter) (cs : List Char) :
    Option.Rel (Fits cs) (argument? kind cs) (argument? kind (crlf cs)) := by
  have hnone {c : Char} (hc : c ≠ kind.opening) (cs : List Char) :
      argument? kind (c :: cs) = none := if_neg hc
  cases cs with
  | nil => exact .none
  | cons c cs =>
    by_cases hc : c = '\n'
    · subst hc
      -- neither half of a line break opens an argument
      have hopening : '\r' ≠ kind.opening ∧ '\n' ≠ kind.opening := by cases kind <;> decide
      rw [crlf_break, hnone hopening.1, hnone hopening.2]
      exact .none
    · rw [crlf_cons hc, argument?, argument?]
      split
      · refine rel_imp (rel_closeArgument kind [] 1 1 cs) ?_
        rintro n m ⟨k, j, hfits, rfl, rfl⟩
        rw [Nat.add_comm 1, Nat.add_comm 1]
        exact hfits.cons hc
      · exact .none

/-- An argument of any kind is found in both texts or in neither, with lengths that fit. -/
theorem fits_anyArgument? (cs : List Char) :
    Option.Rel (Fits cs) (anyArgument? cs) (anyArgument? (crlf cs)) := by
  unfold anyArgument?
  -- the induction is on any list of kinds
  generalize Delimiter.all = kinds
  induction kinds with
  | nil => exact .none
  | cons kind kinds ih =>
    have hargument := fits_argument? kind cs
    rw [List.findSome?_cons, List.findSome?_cons]
    generalize argument? kind cs = found, argument? kind (crlf cs) = found' at hargument
    cases hargument with
    | none => exact ih
    | some h => exact .some h

/-- Arguments in a row are found in both texts or in neither. -/
theorem fits_argumentsLength? (kinds : List Delimiter) (cs : List Char) :
    Option.Rel (Fits cs) (argumentsLength? kinds cs) (argumentsLength? kinds (crlf cs)) := by
  induction kinds generalizing cs with
  | nil => exact .some (.zero cs)
  | cons kind kinds ih =>
    have hskipped := Token.fits_commentLength cs
    -- the comment in front of the argument is skipped in both texts first
    have hargument := fits_argument? kind (cs.drop (Token.commentLength cs))
    rw [← hskipped.drop_eq] at hargument
    simp only [argumentsLength?]
    generalize argument? kind (cs.drop (Token.commentLength cs)) = found,
      argument? kind ((crlf cs).drop (Token.commentLength (crlf cs))) = found' at hargument
    cases hargument with
    | none => exact .none
    | @some n m hargument =>
      have hboth := hskipped.add hargument
      have hrest := ih (cs.drop (Token.commentLength cs + n))
      rw [← hboth.drop_eq] at hrest
      exact rel_map hrest fun h => hboth.add h

/-! ## Matches -/

/-- A command matches both texts or neither, if its name has no line break. -/
theorem Command.fits_length? (signature : Command)
    (hname : Unbroken signature.name.toList) (cs : List Char) :
    Option.Rel (Fits cs) (signature.length? cs) (signature.length? (crlf cs)) := by
  unfold length?
  rw [stripFront?_crlf hname]
  split
  · next hnone =>
    rw [hnone]
    exact .none
  · next rest hrest =>
    rw [hrest]
    refine rel_map (fits_argumentsLength? signature.arguments rest) fun h => ?_
    -- the name has no line break in it and is as long in both texts
    have hall := h.append signature.name.toList
    rw [crlf_of_not_mem hname.not_mem, String.length_toList,
      ← stripFront?_eq_some_iff.mp hrest] at hall
    exact hall

/-- Two matches of the same signature, whose lengths fit. -/
structure Match.Mirrors {α : Type} (cs : List Char) (m m' : Match α) : Prop where
  signature_eq : m'.signature = m.signature
  fits : Fits cs m.length m'.length

/-- Matches that fit override each other alike: what fits is longer in one text if in the other. -/
theorem Match.overrides_crlf {α : Type} (ignoresAll : α → Bool) {cs : List Char}
    {later later' earlier earlier' : Match α} (h : Mirrors cs later later')
    (h' : Mirrors cs earlier earlier') :
    later'.overrides ignoresAll earlier' = later.overrides ignoresAll earlier := by
  have hlt := h'.fits.lt_iff h.fits
  have hgt := h.fits.lt_iff h'.fits
  have heq : later'.length = earlier'.length ↔ later.length = earlier.length := by omega
  rw [Bool.eq_iff_iff]
  simp only [overrides, h.signature_eq, h'.signature_eq, Bool.or_eq_true, Bool.and_eq_true,
    decide_eq_true_eq, beq_iff_eq, hlt, heq]

/-- The best match is of the same signature in both texts. -/
theorem rel_longest? {α : Type} {command : α → Command} (ignoresAll : α → Bool)
    {candidates : List α} (hnames : ∀ candidate ∈ candidates,
      Unbroken (command candidate).name.toList) (cs : List Char) :
    Option.Rel (Match.Mirrors cs) (longest? command ignoresAll candidates cs)
      (longest? command ignoresAll candidates (crlf cs)) := by
  refine List.foldl_rel .none ?_
  intro candidate hmem best best' hbest
  have hlength := (command candidate).fits_length? (hnames candidate hmem) cs
  generalize (command candidate).length? cs = found,
    (command candidate).length? (crlf cs) = found' at hlength
  cases hlength with
  | none => exact hbest
  -- the candidate takes the place of the best one on both sides or on neither
  | @some n m hfits =>
    have hcandidate : Match.Mirrors cs ⟨candidate, n⟩ ⟨candidate, m⟩ := ⟨rfl, hfits⟩
    cases hbest with
    | none => exact .some hcandidate
    | some hearlier =>
      simp only [Match.overrides_crlf ignoresAll hcandidate hearlier]
      split
      · exact .some hcandidate
      · exact .some hearlier

namespace Registry

variable (r : Registry)

/-- The registry finds the same command in both texts. -/
theorem rel_command? {name : String} (hname : Text.Unbroken name.toList)
    (cs : List Char) :
    Option.Rel (Match.Mirrors cs) (r.command? name cs) (r.command? name (crlf cs)) := by
  refine rel_longest? _ ?_ cs
  intro candidate hmem
  obtain ⟨-, hcandidate⟩ := List.mem_filter.mp hmem
  rw [id_eq, beq_iff_eq.mp hcandidate]
  exact hname

/-- No environment on file has a line break in its opening. -/
def Unbroken (r : Registry) : Prop :=
  ∀ e ∈ r.filedEnvironments, Text.Unbroken e.opening.name.toList

variable {r : Registry}

/-- Nothing is on file for an opening with a line break. -/
theorem environments_eq_nil (h : r.Unbroken) {opening : String} {c : Char}
    (hmem : c ∈ opening.toList) (hc : Token.isLineEnd c = true) : r.environments opening = [] := by
  rw [environments, List.filter_eq_nil_iff]
  intro e he hopening
  have hname := h e he c (by rwa [beq_iff_eq.mp hopening])
  rw [hc] at hname
  cases hname

/-- The best match for an opening, which then has no line break. -/
theorem rel_environment? (h : r.Unbroken) (opening cs : List Char) :
    Option.Rel (fun m m' => Match.Mirrors cs m m' ∧ Text.Unbroken opening)
      (r.environment? (String.ofList opening) cs)
      (r.environment? (String.ofList (crlf opening)) (crlf cs)) := by
  unfold environment?
  by_cases hline : Text.Unbroken opening
  · have hnames : ∀ e ∈ r.environments (String.ofList opening),
        Text.Unbroken e.opening.name.toList := by
      intro e hmem
      exact h e (List.mem_filter.mp hmem).1
    rw [crlf_of_not_mem hline.not_mem]
    exact rel_imp (rel_longest? _ hnames cs) fun hmatch => ⟨hmatch, hline⟩
  -- the name is broken over lines, in both texts, and no signature is filed under such a name
  · obtain ⟨c, hmem, hc⟩ : ∃ c ∈ opening, Token.isLineEnd c = true := by
      simpa [Text.Unbroken] using hline
    rw [environments_eq_nil h (by simpa using hmem) hc,
      environments_eq_nil h (by simpa using mem_crlf_of_mem hmem) hc]
    exact .none

end Registry

end ProseLens.Signature
