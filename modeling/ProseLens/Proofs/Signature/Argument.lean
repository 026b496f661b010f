import Mathlib.Data.List.TakeWhile
import ProseLens.Extract.Environment

/-!
# How far arguments reach

An argument that is opened before the closing tag of an environment ends before that tag or not at
all: the braces of the tag are balanced and nothing else in it closes anything.  The same holds of
all arguments of a signature together, since a comment that reaches the tag goes on to its end.

An argument in parentheses ends with the first closing one if nothing before that nests.

## Key results

- `closeArgument_le`, `argumentsLength?_le`: arguments do not reach into the closing tag
- `argumentRun_group`, `argumentRun_eq_nil`: which arguments in parentheses follow an opening
-/

namespace ProseLens

namespace Signature

/-- Characters that open, close or hide something in an argument. -/
def structural : List Char := ['\\', '{', '[', '}', ']', ')']

/-- The tag that closes the environment `name`. -/
def closingTag (name : List Char) : List Char := "\\end\x7b".toList ++ name ++ ['}']

/-- The closing tag of an environment. -/
theorem closingTag_eq (name : List Char) :
    closingTag name = "\\end\x7b".toList ++ name ++ ['}'] := rfl

/-- The delimiters that are open after a character that is no backslash: none any more if it closes
    the outermost one, and `none` if it cannot stand there. -/
def openAfter (c : Char) (inner : Delimiter) (outer : List Delimiter) : Option (List Delimiter) :=
  if c = '{' then some (.brace :: inner :: outer)
  else if c = '[' then some (.bracket :: inner :: outer)
  else if c = '}' ∨ c = ']' then if c = inner.closing then some outer else none
  else if c = ')' ∧ inner = .parenthesis then some []
  else some (inner :: outer)

/-- Behind any character but a backslash, an argument goes on with the delimiters that are open
    then. -/
theorem closeArgument_cons {c : Char} (hc : c ≠ '\\') (inner : Delimiter)
    (outer : List Delimiter) (taken : Nat) (cs : List Char) :
    closeArgument inner outer taken (c :: cs) =
      match openAfter c inner outer with
      | none => none
      | some [] => some (taken + 1)
      | some (inner :: outer) => closeArgument inner outer (taken + 1) cs := by
  rw [closeArgument.eq_def]
  -- one case for each kind of character, as `openAfter` tells them apart
  split
  · next heq => cases heq
  · next heq => exact absurd (List.cons.inj heq).1 hc
  · next heq => exact absurd (List.cons.inj heq).1 hc
  · next heq =>
    obtain ⟨rfl, rfl⟩ := List.cons.inj heq
    unfold openAfter
    split
    · rfl
    · split
      · rfl
      · split
        · split
          · split <;> rfl
          · rfl
        · split <;> rfl

/-- A character that is no delimiter opens and closes nothing. -/
theorem openAfter_other {c : Char} (hc : c ∉ structural) (inner : Delimiter)
    (outer : List Delimiter) : openAfter c inner outer = some (inner :: outer) := by
  simp only [structural, List.mem_cons, List.not_mem_nil, or_false, not_or] at hc
  simp [openAfter, hc]

/-- Characters that are no delimiters are passed. -/
theorem closeArgument_others {text : List Char} (htext : ∀ c ∈ text, c ∉ structural)
    (inner : Delimiter) (outer : List Delimiter) (taken : Nat) (cs : List Char) :
    closeArgument inner outer taken (text ++ cs) =
      closeArgument inner outer (taken + text.length) cs := by
  induction text generalizing taken with
  | nil => rfl
  | cons c text ih =>
    rw [List.forall_mem_cons] at htext
    have hc : c ≠ '\\' := by
      rintro rfl
      exact htext.1 (by decide)
    -- outside of the structural characters the stack of open delimiters stays as it is
    rw [List.cons_append, closeArgument_cons hc, openAfter_other htext.1]
    dsimp only
    rw [ih htext.2, List.length_cons]
    congr 1
    omega

/-- An argument has at least its delimiters. -/
theorem lt_of_closeArgument {inner : Delimiter} {outer : List Delimiter} {taken n : Nat}
    {cs : List Char} (h : closeArgument inner outer taken cs = some n) : taken < n := by
  fun_induction closeArgument inner outer taken cs with
  | case1 | case2 | case8 => cases h
  -- the two cases that close the argument take its last character
  | case6 | case9 =>
    obtain rfl := Option.some.inj h
    omega
  | case3 _ _ _ _ _ ih | case4 _ _ _ _ _ _ ih | case5 _ _ _ _ _ _ _ ih
  | case7 _ _ _ _ _ _ _ _ _ _ ih | case10 _ _ _ _ _ _ _ _ _ _ _ ih =>
    have hlt := ih h
    omega

/-- An argument takes its delimiters at least. -/
theorem argument?_pos {kind : Delimiter} {cs : List Char} {n : Nat}
    (h : argument? kind cs = some n) : 0 < n := by
  cases cs with
  | nil => cases h
  | cons c cs =>
    rw [argument?] at h
    split at h
    · have hlt := lt_of_closeArgument h
      omega
    · cases h

/-- An argument of any kind takes its delimiters at least. -/
theorem anyArgument?_pos {cs : List Char} {n : Nat} (h : anyArgument? cs = some n) : 0 < n := by
  obtain ⟨kind, -, hkind⟩ := List.exists_of_findSome?_eq_some h
  exact argument?_pos hkind

/-- Arguments follow for as long as there is one. -/
theorem argumentRun_eq (cs : List Char) :
    Extract.argumentRun cs =
      match anyArgument? cs with
      | none => []
      | some n => n :: Extract.argumentRun (cs.drop n) := by
  cases cs with
  | nil =>
    have hnone : anyArgument? [] = none := rfl
    rw [Extract.argumentRun, hnone]
  | cons c cs =>
    rw [Extract.argumentRun]
    cases hargument : anyArgument? (c :: cs) with
    | none => rfl
    | some n =>
      obtain ⟨k, rfl⟩ := Nat.exists_eq_add_of_lt (anyArgument?_pos hargument)
      simp

/-! ## Arguments before a closing tag -/

section ClosingTag

variable {name : List Char} (hname : ∀ c ∈ name, c ∉ structural)

include hname

/-- A name in braces opens and closes one group. -/
theorem closeArgument_braced (inner : Delimiter) (outer : List Delimiter) (taken : Nat) :
    closeArgument inner outer taken ('{' :: (name ++ ['}'])) = none := by
  have hopen : openAfter '{' inner outer = some (.brace :: inner :: outer) := rfl
  have hclose : openAfter '}' .brace (inner :: outer) = some (inner :: outer) := rfl
  rw [closeArgument_cons (by decide), hopen]
  dsimp only
  rw [closeArgument_others hname, closeArgument_cons (by decide), hclose]
  rfl

/-- The closing tag closes nothing that was opened before it, also if its backslash is escaped. -/
theorem closeArgument_closingTag (inner : Delimiter) (outer : List Delimiter) (taken : Nat) :
    closeArgument inner outer taken (closingTag name) = none ∧
      closeArgument inner outer taken (closingTag name).tail = none := by
  have hword (word : List Char) (hword : ∀ c ∈ word, c ∉ structural) (taken : Nat) :
      closeArgument inner outer taken (word ++ '{' :: (name ++ ['}'])) = none := by
    rw [closeArgument_others hword, closeArgument_braced hname]
  constructor
  · show closeArgument inner outer taken ('\\' :: 'e' :: (['n', 'd'] ++ '{' :: (name ++ ['}']))) = _
    rw [closeArgument]
    exact hword ['n', 'd'] (by simp [structural]) _
  · exact hword ['e', 'n', 'd'] (by simp [structural]) _

/-- An argument that was opened before the closing tag ends before it. -/
theorem closeArgument_le {body : List Char} {inner : Delimiter} {outer : List Delimiter}
    {taken n : Nat} (h : closeArgument inner outer taken (body ++ closingTag name) = some n) :
    n ≤ taken + body.length := by
  -- by induction on the length, since an escaped character is passed over with its backslash
  induction hlength : body.length using Nat.strongRecOn generalizing body inner outer taken with
  | ind length ih =>
    cases body with
    | nil =>
      rw [List.nil_append, (closeArgument_closingTag hname _ _ _).1] at h
      cases h
    | cons c body =>
      rw [List.length_cons] at hlength
      by_cases hbackslash : c = '\\'
      · subst hbackslash
        cases body with
        | nil =>
          have hescaped : closeArgument inner outer taken (['\\'] ++ closingTag name) =
              closeArgument inner outer (taken + 2) (closingTag name).tail := rfl
          rw [hescaped, (closeArgument_closingTag hname _ _ _).2] at h
          cases h
        | cons d body =>
          rw [List.cons_append, List.cons_append, closeArgument] at h
          simp only [List.length_cons] at hlength
          have hle := ih body.length (by omega) h rfl
          omega
      · rw [List.cons_append, closeArgument_cons hbackslash] at h
        split at h
        · cases h
        · obtain rfl := Option.some.inj h
          omega
        · have hle := ih body.length (by omega) h rfl
          omega

/-- No argument reaches into the closing tag behind it. -/
theorem argument?_le {body : List Char} {kind : Delimiter} {n : Nat}
    (h : argument? kind (body ++ closingTag name) = some n) : n ≤ body.length := by
  cases body with
  -- the tag starts with a backslash, which opens no argument
  | nil =>
    have hopening : '\\' ≠ kind.opening := by cases kind <;> decide
    have hnone : argument? kind (closingTag name) = none := if_neg hopening
    rw [List.nil_append, hnone] at h
    cases h
  | cons c body =>
    rw [List.cons_append, argument?] at h
    split at h
    -- the tag itself closes no argument that is open in front of it
    · have hle := closeArgument_le hname h
      rw [List.length_cons]
      omega
    · cases h

omit hname in
/-- A comment before the closing tag ends before it, or takes it whole. -/
theorem commentLength_closingTag (hline : ∀ c ∈ name, Token.isLineEnd c = false)
    (body : List Char) :
    Token.commentLength (body ++ closingTag name) ≤ body.length ∨
      (body ++ closingTag name).drop (Token.commentLength (body ++ closingTag name)) = [] := by
  by_cases hcomment : ∃ line, body = '%' :: line
  · obtain ⟨line, rfl⟩ := hcomment
    have hlength : Token.commentLength ('%' :: (line ++ closingTag name)) =
        1 + ((line ++ closingTag name).takeWhile fun c => !Token.isLineEnd c).length +
          (((line ++ closingTag name).dropWhile fun c => !Token.isLineEnd c).takeWhile
            Token.isBlank).length := rfl
    rw [List.cons_append, hlength]
    by_cases hends : line.all (fun c => !Token.isLineEnd c) = true
    · -- the line goes on to the end of the tag
      right
      have hall : ∀ c ∈ line ++ closingTag name, (!Token.isLineEnd c) = true := by
        intro c hc
        rw [closingTag_eq, List.mem_append, List.mem_append, List.mem_append] at hc
        rcases hc with hc | (hc | hc) | hc
        · exact List.all_eq_true.mp hends c hc
        · have htag : "\\end\x7b".toList.all (fun c => !Token.isLineEnd c) = true := by decide
          exact List.all_eq_true.mp htag c hc
        · simp [hline c hc]
        · rw [List.mem_singleton.mp hc]
          rfl
      rw [List.takeWhile_eq_self_iff.mpr hall]
      exact List.drop_eq_nil_of_le (by simp only [List.length_cons]; omega)
    · -- the blanks after the line end before the tag does
      left
      have hafter : line.dropWhile (fun c => !Token.isLineEnd c) ≠ [] := by
        rwa [ne_eq, List.dropWhile_eq_nil_iff, ← List.all_eq_true]
      have hsplit := congrArg List.length
        (List.takeWhile_append_dropWhile (p := fun c => !Token.isLineEnd c) (l := line))
      rw [List.length_append] at hsplit
      have hline' : ((line ++ closingTag name).takeWhile fun c => !Token.isLineEnd c) =
          line.takeWhile fun c => !Token.isLineEnd c := by
        rw [List.takeWhile_append, if_neg]
        intro hall
        exact hafter (List.length_eq_zero_iff.mp (by omega))
      have hblanks : ((line.dropWhile (fun c => !Token.isLineEnd c) ++ closingTag name).takeWhile
          Token.isBlank).length ≤ (line.dropWhile fun c => !Token.isLineEnd c).length := by
        have hnone : (closingTag name).takeWhile Token.isBlank = [] := rfl
        rw [List.takeWhile_append, hnone, List.append_nil]
        split
        · exact Nat.le_refl _
        · exact (List.takeWhile_prefix _).length_le
      rw [hline', List.dropWhile_append, if_neg (by simpa using hafter), List.length_cons]
      omega
  · left
    have hnone : Token.comment? (body ++ closingTag name) = none := by
      cases body with
      | nil => rfl
      | cons c body =>
        unfold Token.comment?
        split
        · next line heq =>
          have hc : c = '%' := (List.cons.inj heq).1
          exact absurd ⟨body, by rw [hc]⟩ hcomment
        · rfl
    rw [Token.commentLength, hnone]
    exact Nat.zero_le _

/-- The arguments of a signature end before the closing tag. -/
theorem argumentsLength?_le (hline : ∀ c ∈ name, Token.isLineEnd c = false) {body : List Char}
    {kinds : List Delimiter} {n : Nat}
    (h : argumentsLength? kinds (body ++ closingTag name) = some n) : n ≤ body.length := by
  induction kinds generalizing body n with
  | nil =>
    obtain rfl := Option.some.inj h
    exact Nat.zero_le _
  | cons kind kinds ih =>
    rw [argumentsLength?] at h
    -- a comment in front of the argument ends before the closing tag, or takes the tag as well
    rcases commentLength_closingTag hline body with hle | hnil
    · rw [List.drop_append_of_le_length hle] at h
      split at h
      · cases h
      · next m hm =>
        obtain ⟨k, hk, rfl⟩ := Option.map_eq_some_iff.mp h
        have hle' := argument?_le hname hm
        rw [List.length_drop] at hle'
        rw [List.drop_append_of_le_length (by omega)] at hk
        have hle'' := ih hk
        rw [List.length_drop] at hle''
        omega
    · rw [hnil] at h
      cases h

/-! ## Arguments in parentheses -/

/-- A text before the closing tag that opens and hides nothing closes an argument in parentheses
    with the first closing one, if at all. -/
theorem exists_group_of_closeArgument {body : List Char} {taken n : Nat}
    (hbody : ∀ c ∈ body, c ∉ ['\\', '{', '[', '}'])
    (h : closeArgument .parenthesis [] taken (body ++ closingTag name) = some n) :
    ∃ group rest, body = group ++ ')' :: rest ∧ ∀ c ∈ group, c ∉ structural := by
  induction body generalizing taken with
  | nil =>
    rw [List.nil_append, (closeArgument_closingTag hname _ _ _).1] at h
    cases h
  | cons c body ih =>
    rw [List.forall_mem_cons] at hbody
    obtain ⟨hc, hbody⟩ := hbody
    simp only [List.mem_cons, List.not_mem_nil, or_false, not_or] at hc
    obtain ⟨hbackslash, hbrace, hbracket, hbrace'⟩ := hc
    rw [List.cons_append, closeArgument_cons hbackslash] at h
    -- the first closing parenthesis ends the group
    by_cases hclose : c = ')'
    · exact ⟨[], body, by rw [hclose]; rfl, by simp⟩
    · have hbracket' : c ≠ ']' := by
        rintro rfl
        cases h
      have hother : c ∉ structural := by
        simp [structural, hbackslash, hbrace, hbracket, hbrace', hbracket', hclose]
      rw [openAfter_other hother] at h
      obtain ⟨group, rest, rfl, hgroup⟩ := ih hbody h
      exact ⟨c :: group, rest, rfl, List.forall_mem_cons.mpr ⟨hother, hgroup⟩⟩

/-- No argument follows directly before the closing tag, unless the text between begins with one in
    parentheses. -/
theorem argumentRun_eq_nil {body : List Char} (hbody : ∀ c ∈ body, c ∉ ['\\', '{', '[', '}'])
    (hgroup : ¬ ∃ group rest, body = '(' :: (group ++ ')' :: rest) ∧ ∀ c ∈ group, c ∉ structural) :
    Extract.argumentRun (body ++ closingTag name) = [] := by
  have hnone : anyArgument? (body ++ closingTag name) = none := by
    rw [anyArgument?, List.findSome?_eq_none_iff]
    intro kind _
    cases body with
    | nil => cases kind <;> rfl
    | cons c body =>
      rw [List.forall_mem_cons] at hbody
      cases hargument : argument? kind (c :: body ++ closingTag name) with
      | none => rfl
      | some n =>
        rw [List.cons_append, argument?] at hargument
        split at hargument
        · next hopen =>
          cases kind with
          | brace => exact absurd (by rw [hopen]; decide) hbody.1
          | bracket => exact absurd (by rw [hopen]; decide) hbody.1
          -- braces and brackets do not occur in the body, so that only parentheses are left
          | parenthesis =>
            obtain ⟨group, rest, rfl, hfree⟩ :=
              exists_group_of_closeArgument hname hbody.2 hargument
            exact absurd ⟨group, rest, by rw [hopen]; rfl, hfree⟩ hgroup
        · cases hargument
  rw [argumentRun_eq, hnone]

end ClosingTag

/-- An argument in parentheses that follows directly. -/
theorem argumentRun_group {group : List Char} (hgroup : ∀ c ∈ group, c ∉ structural)
    (rest : List Char) :
    Extract.argumentRun ('(' :: (group ++ ')' :: rest)) =
      (group.length + 2) :: Extract.argumentRun rest := by
  have hclose : openAfter ')' .parenthesis [] = some [] := rfl
  have hparenthesis : argument? .parenthesis ('(' :: (group ++ ')' :: rest)) =
      some (group.length + 2) := by
    show closeArgument .parenthesis [] 1 (group ++ ')' :: rest) = _
    rw [closeArgument_others hgroup, closeArgument_cons (by decide), hclose, Nat.add_comm 1]
  -- the three kinds are tried in turn, and one alone opens here
  have hbrace : argument? .brace ('(' :: (group ++ ')' :: rest)) = none := rfl
  have hbracket : argument? .bracket ('(' :: (group ++ ')' :: rest)) = none := rfl
  have hargument : anyArgument? ('(' :: (group ++ ')' :: rest)) = some (group.length + 2) := by
    simp only [anyArgument?, Delimiter.all, List.findSome?_cons, hbrace, hbracket, hparenthesis]
  rw [argumentRun_eq, hargument]
  simp

end Signature

end ProseLens
