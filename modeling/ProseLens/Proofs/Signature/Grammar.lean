import ProseLens.Proofs.Signature.Argument
import ProseLens.Proofs.Text.Encoding
import ProseLens.Proofs.Text.Occurrence

/-!
# The grammar of arguments

What stands between the delimiters of an argument is a `Body`: characters, escaped characters and
nested groups in braces or brackets.  An argument ends where the first body that its opening begins
is closed, and there is no other way to read it.

The reader keeps the open delimiters on a stack and looks at one character at a time.  A body leaves
the stack as it was (`closeArgument_body`), and whatever the reader accepts splits into a body, its
closing delimiter and what closes the delimiters around it (`exists_body_of_closeArgument`).

All characters that the reader looks for are below 128, so that it may as well read bytes
(`closeBytes`), also with a backslash that takes one byte out of account and not one character: what
is left of an escaped character are bytes that mean nothing.

## Key results

- `argument?_eq_some_iff`: the arguments at the start of a text
- `argumentEnd?_eq_some_iff`: the arguments at a byte offset
- `argumentEndInBytes?_eq`: reading bytes instead of characters
-/

namespace ProseLens.Signature

/-! ## Bodies -/

/-- What may stand directly between the delimiters `d`. -/
inductive Body : (d : Delimiter) → List Char → Prop where
  /-- Nothing. -/
  | nil {d : Delimiter} : Body d []
  /-- A backslash and any character. -/
  | escaped {d : Delimiter} (c : Char) {cs : List Char} (h : Body d cs) : Body d ('\\' :: c :: cs)
  /-- A body between braces or brackets. -/
  | group {d e : Delimiter} {inner cs : List Char} (he : e ≠ .parenthesis) (hinner : Body e inner)
      (h : Body d cs) : Body d (e.opening :: (inner ++ e.closing :: cs))
  /-- A character without a meaning; a closing parenthesis has one directly between parentheses. -/
  | plain {d : Delimiter} {c : Char} {cs : List Char} (hc : c ∉ ['\\', '{', '}', '[', ']'])
      (hd : d = .parenthesis → c ≠ ')') (h : Body d cs) : Body d (c :: cs)

/-- An argument of the given kind: a body between its delimiters. -/
def IsArgument (kind : Delimiter) (text : List Char) : Prop :=
  ∃ body, Body kind body ∧ text = kind.opening :: (body ++ [kind.closing])

/-- Reads on with what is open around an argument that has just been closed. -/
def resume (outer : List Delimiter) (taken : Nat) (cs : List Char) : Option Nat :=
  match outer with
  | [] => some taken
  | inner :: outer => closeArgument inner outer taken cs

/-- Behind a character, an argument resumes with the delimiters that are open then. -/
theorem closeArgument_eq_resume {c : Char} (hc : c ≠ '\\') (inner : Delimiter)
    (outer : List Delimiter) (taken : Nat) (cs : List Char) :
    closeArgument inner outer taken (c :: cs) =
      (openAfter c inner outer).bind fun stack => resume stack (taken + 1) cs := by
  rw [closeArgument_cons hc]
  cases openAfter c inner outer with
  | none => rfl
  | some stack => cases stack <;> rfl

/-- The opening of a group goes onto the stack. -/
theorem openAfter_opening {e : Delimiter} (he : e ≠ .parenthesis) (inner : Delimiter)
    (outer : List Delimiter) : openAfter e.opening inner outer = some (e :: inner :: outer) := by
  cases e with
  | brace => rfl
  | bracket => rfl
  | parenthesis => exact absurd rfl he

/-- The closing delimiter of the innermost group goes with it. -/
theorem openAfter_closing {d : Delimiter} {outer : List Delimiter}
    (hd : d = .parenthesis → outer = []) : openAfter d.closing d outer = some outer := by
  cases d with
  | brace => rfl
  | bracket => rfl
  | parenthesis => rw [hd rfl]; rfl

/-- A character without a meaning leaves the stack as it is. -/
theorem openAfter_plain {d : Delimiter} {c : Char} (hc : c ∉ ['\\', '{', '}', '[', ']'])
    (hd : d = .parenthesis → c ≠ ')') (outer : List Delimiter) :
    openAfter c d outer = some (d :: outer) := by
  simp only [List.mem_cons, List.not_mem_nil, or_false, not_or] at hc
  have hparenthesis : ¬ (c = ')' ∧ d = .parenthesis) := fun h => hd h.2 h.1
  simp [openAfter, hc, hparenthesis]

/-- No delimiter opens with a backslash. -/
theorem opening_ne_backslash (d : Delimiter) : d.opening ≠ '\\' := by cases d <;> decide

/-- No delimiter closes with a backslash. -/
theorem closing_ne_backslash (d : Delimiter) : d.closing ≠ '\\' := by cases d <;> decide

/-- A body is passed over, whatever is open around it. -/
theorem closeArgument_body {d : Delimiter} {body : List Char} (h : Body d body)
    (outer : List Delimiter) (taken : Nat) (cs : List Char) :
    closeArgument d outer taken (body ++ cs) =
      closeArgument d outer (taken + body.length) cs := by
  induction h generalizing outer taken cs with
  | nil => rfl
  | escaped c h ih =>
    rw [List.cons_append, List.cons_append, closeArgument, ih]
    congr 1
    simp only [List.length_cons]
    omega
  | @group d e inner body he hinner h ihinner ih =>
    -- the group is opened, its body passed over, and closed again
    rw [List.cons_append, List.append_assoc, List.cons_append,
      closeArgument_eq_resume (opening_ne_backslash e), openAfter_opening he, Option.bind_some,
      resume, ihinner, closeArgument_eq_resume (closing_ne_backslash e),
      openAfter_closing (fun hparenthesis => absurd hparenthesis he), Option.bind_some, resume, ih]
    congr 1
    simp only [List.length_cons, List.length_append]
    omega
  | plain hc hd h ih =>
    have hbackslash := List.ne_of_not_mem_cons hc
    rw [List.cons_append, closeArgument_eq_resume hbackslash, openAfter_plain hc hd,
      Option.bind_some, resume, ih]
    congr 1
    simp only [List.length_cons]
    omega

/-- The text before a closing delimiter that the reader accepts is a body. -/
theorem exists_body_of_closeArgument {inner : Delimiter} {outer : List Delimiter} {taken n : Nat}
    {cs : List Char} (hinner : inner = .parenthesis → outer = [])
    (h : closeArgument inner outer taken cs = some n) :
    ∃ body rest, cs = body ++ inner.closing :: rest ∧ Body inner body ∧
      resume outer (taken + body.length + 1) rest = some n := by
  -- by induction on the length: after a nested group the same delimiters are open as before it
  induction hlength : cs.length using Nat.strongRecOn generalizing cs inner outer taken with
  | ind length ih =>
    cases cs with
    | nil => cases h
    | cons c cs =>
      rw [List.length_cons] at hlength
      by_cases hbackslash : c = '\\'
      · subst hbackslash
        cases cs with
        | nil => cases h
        | cons d cs =>
          rw [closeArgument] at h
          rw [List.length_cons] at hlength
          obtain ⟨body, rest, rfl, hbody, hrest⟩ := ih cs.length (by omega) hinner h rfl
          refine ⟨'\\' :: d :: body, rest, rfl, hbody.escaped d, ?_⟩
          rw [← hrest]
          congr 1
          simp only [List.length_cons]
          omega
      · rw [closeArgument_eq_resume hbackslash] at h
        obtain ⟨stack, hstack, hresume⟩ := Option.bind_eq_some_iff.mp h
        by_cases hopens : ∃ e : Delimiter, e ≠ .parenthesis ∧ c = e.opening
        · obtain ⟨e, he, rfl⟩ := hopens
          rw [openAfter_opening he] at hstack
          obtain rfl := Option.some.inj hstack
          obtain ⟨group, cs', rfl, hgroup, hafter⟩ :=
            ih cs.length (by omega) (fun hparenthesis => absurd hparenthesis he) hresume rfl
          simp only [List.length_append, List.length_cons] at hlength
          obtain ⟨body, rest, rfl, hbody, hrest⟩ := ih cs'.length (by omega) hinner hafter rfl
          refine ⟨e.opening :: (group ++ e.closing :: body), rest, by simp,
            .group he hgroup hbody, ?_⟩
          rw [← hrest]
          congr 1
          simp only [List.length_cons, List.length_append]
          omega
        · by_cases hcloses : c = inner.closing
          · subst hcloses
            rw [openAfter_closing hinner] at hstack
            obtain rfl := Option.some.inj hstack
            exact ⟨[], cs, rfl, .nil, hresume⟩
          · -- neither opens nor closes, so that it must be a character without a meaning
            have hbrace : c ≠ '{' := fun hc => hopens ⟨.brace, by decide, hc⟩
            have hbracket : c ≠ '[' := fun hc => hopens ⟨.bracket, by decide, hc⟩
            have hother : c ≠ '}' ∧ c ≠ ']' := by
              rw [← not_or]
              intro hc
              rw [openAfter, if_neg hbrace, if_neg hbracket, if_pos hc, if_neg hcloses] at hstack
              cases hstack
            have hplain : c ∉ ['\\', '{', '}', '[', ']'] := by
              simp [hbackslash, hbrace, hbracket, hother]
            have hparenthesis : inner = .parenthesis → c ≠ ')' := by
              rintro rfl
              exact hcloses
            rw [openAfter_plain hplain hparenthesis] at hstack
            obtain rfl := Option.some.inj hstack
            obtain ⟨body, rest, rfl, hbody, hrest⟩ := ih cs.length (by omega) hinner hresume rfl
            refine ⟨c :: body, rest, rfl, hbody.plain hplain hparenthesis, ?_⟩
            rw [← hrest]
            congr 1
            simp only [List.length_cons]
            omega

/-- The reader accepts exactly the arguments, and to their end. -/
theorem argument?_eq_some_iff {kind : Delimiter} {cs : List Char} {n : Nat} :
    argument? kind cs = some n ↔
      ∃ text rest, cs = text ++ rest ∧ IsArgument kind text ∧ text.length = n := by
  constructor
  · intro h
    cases cs with
    | nil => cases h
    | cons c cs =>
      rw [argument?] at h
      split at h
      · next hopening =>
        obtain ⟨body, rest, rfl, hbody, hend⟩ := exists_body_of_closeArgument (fun _ => rfl) h
        refine ⟨kind.opening :: (body ++ [kind.closing]), rest, by simp [hopening],
          ⟨body, hbody, rfl⟩, ?_⟩
        rw [← Option.some.inj hend]
        simp only [List.length_cons, List.length_append, List.length_nil]
        omega
      · cases h
  -- an argument of the grammar is read up to its closing delimiter, which leaves nothing open
  · rintro ⟨_, rest, rfl, ⟨body, hbody, rfl⟩, rfl⟩
    rw [List.cons_append, argument?, if_pos rfl, List.append_assoc, closeArgument_body hbody]
    rw [List.singleton_append, closeArgument_eq_resume (closing_ne_backslash kind),
      openAfter_closing (fun _ => rfl), Option.bind_some, resume]
    congr 1
    simp only [List.length_cons, List.length_append, List.length_nil]
    omega

/-- The arguments at a byte offset. -/
theorem argumentEnd?_eq_some_iff {kind : Delimiter} {source : String} {start stop : Nat} :
    argumentEnd? kind source start = some stop ↔
      ∃ text, Text.slice? source start stop = some text ∧ IsArgument kind text.toList := by
  simp only [argumentEnd?, Text.measureAt?, Option.bind_eq_bind, Option.pure_def,
    Option.map_eq_some_iff, Option.bind_eq_some_iff, Option.some.injEq, Text.slice?_eq_some_iff]
  constructor
  -- the reader on characters has its own grammar: what is left here are the two ways to say where
  · rintro ⟨_, ⟨cs, hdrop, n, hn, rfl⟩, rfl⟩
    obtain ⟨text, rest, rfl, htext, rfl⟩ := argument?_eq_some_iff.mp hn
    refine ⟨String.ofList text, ⟨rest, ?_, ?_⟩, ?_⟩
    · rwa [String.toList_ofList]
    · rw [String.toList_ofList, List.take_left]
    · rwa [String.toList_ofList]
  · rintro ⟨text, ⟨rest, hdrop, rfl⟩, htext⟩
    refine ⟨_, ⟨text.toList ++ rest, hdrop, text.toList.length, ?_, rfl⟩, ?_⟩
    · exact argument?_eq_some_iff.mpr ⟨_, rest, rfl, htext, rfl⟩
    · rw [List.take_left]

/-! ## Reading bytes -/

/-- Reads on inside an argument byte by byte, from byte `pos` on.  `stack` holds the delimiters that
    are open, innermost first.  A backslash takes the byte after it out of account. -/
def closeBytes (stack : List Delimiter) (pos : Nat) : List UInt8 → Option Nat
  | [] => none
  | b :: bs =>
    if b = '\\'.toUInt8 then closeBytes stack (pos + 2) (bs.drop 1)
    else if b = '{'.toUInt8 then closeBytes (.brace :: stack) (pos + 1) bs
    else if b = '['.toUInt8 then closeBytes (.bracket :: stack) (pos + 1) bs
    else if b = '}'.toUInt8 ∨ b = ']'.toUInt8 then
      let closed := if b = '}'.toUInt8 then Delimiter.brace else .bracket
      if stack.head? ≠ some closed then none
      else if stack.length = 1 then some (pos + 1)
      else closeBytes stack.tail (pos + 1) bs
    else if b = ')'.toUInt8 ∧ stack = [.parenthesis] then some (pos + 1)
    else closeBytes stack (pos + 1) bs
termination_by bs => bs.length
decreasing_by all_goals (simp only [List.length_drop, List.length_cons]; omega)

/-- The byte offset where the argument at byte `start` ends, read off the bytes of a text. -/
def argumentEndInBytes? (kind : Delimiter) (bytes : List UInt8) (start : Nat) : Option Nat :=
  if bytes[start]? = some kind.opening.toUInt8 then
    closeBytes [kind] (start + 1) (bytes.drop (start + 1))
  else none

/-- Parentheses are open around everything else or not at all. -/
def Nests (stack : List Delimiter) : Prop := .parenthesis ∉ stack.dropLast

/-- One delimiter alone nests. -/
theorem nests_singleton (d : Delimiter) : Nests [d] := List.not_mem_nil

/-- A stack nests if parentheses are its outermost element only. -/
theorem nests_cons {d e : Delimiter} {stack : List Delimiter} :
    Nests (d :: e :: stack) ↔ d ≠ .parenthesis ∧ Nests (e :: stack) := by
  simp [Nests, eq_comm]

/-- Parentheses are open alone. -/
theorem Nests.eq_nil {outer : List Delimiter} (h : Nests (.parenthesis :: outer)) : outer = [] := by
  cases outer with
  | nil => rfl
  | cons e outer => exact absurd rfl (nests_cons.mp h).1

/-- Whatever is open after a character nests as before. -/
theorem Nests.openAfter {c : Char} {inner : Delimiter} {outer stack : List Delimiter}
    (h : Nests (inner :: outer)) (hstack : Signature.openAfter c inner outer = some stack) :
    Nests stack := by
  -- a character opens a delimiter, closes the innermost one, or does neither
  have hpush (d : Delimiter) (hd : d ≠ .parenthesis) : Nests (d :: inner :: outer) :=
    nests_cons.mpr ⟨hd, h⟩
  have hpop : Nests outer := by
    cases outer with
    | nil => exact List.not_mem_nil
    | cons e outer => exact (nests_cons.mp h).2
  unfold Signature.openAfter at hstack
  split at hstack
  · obtain rfl := Option.some.inj hstack
    exact hpush .brace (by decide)
  · split at hstack
    · obtain rfl := Option.some.inj hstack
      exact hpush .bracket (by decide)
    · split at hstack
      · split at hstack
        · obtain rfl := Option.some.inj hstack
          exact hpop
        · cases hstack
      · split at hstack
        · obtain rfl := Option.some.inj hstack
          exact List.not_mem_nil
        · obtain rfl := Option.some.inj hstack
          exact h

/-- Bytes of characters from 128 on mean nothing. -/
theorem closeBytes_high {high : List UInt8} (hhigh : ∀ b ∈ high, 128 ≤ b.toNat)
    (stack : List Delimiter) (pos : Nat) (bs : List UInt8) :
    closeBytes stack pos (high ++ bs) = closeBytes stack (pos + high.length) bs := by
  induction high generalizing pos with
  | nil => rfl
  | cons b high ih =>
    rw [List.forall_mem_cons] at hhigh
    -- no byte of a longer character is one of the structural characters
    have hne (c : Char) (hc : c.toNat < 128) : b ≠ c.toUInt8 := by
      rintro rfl
      have hle := hhigh.1
      rw [Text.toNat_toUInt8 hc] at hle
      omega
    rw [List.cons_append, closeBytes, if_neg (hne '\\' (by decide)), if_neg (hne '{' (by decide)),
      if_neg (hne '[' (by decide)),
      if_neg (not_or.mpr ⟨hne '}' (by decide), hne ']' (by decide)⟩),
      if_neg (fun h => hne ')' (by decide) h.1), ih hhigh.2]
    congr 1
    rw [List.length_cons]
    omega

/-- The byte of a character below 128 does to the stack what the character does. -/
theorem closeBytes_char {c : Char} (hc : c.toNat < 128) (hbackslash : c ≠ '\\') {inner : Delimiter}
    {outer : List Delimiter} (hnests : Nests (inner :: outer)) (pos : Nat) (bs : List UInt8) :
    closeBytes (inner :: outer) pos (c.toUInt8 :: bs) =
      (openAfter c inner outer).bind fun stack =>
        if stack = [] then some (pos + 1) else closeBytes stack (pos + 1) bs := by
  have hiff (d : Char) (hd : d.toNat < 128) : c.toUInt8 = d.toUInt8 ↔ c = d :=
    Text.toUInt8_inj hc hd
  rw [closeBytes, openAfter]
  simp only [hiff '\\' (by decide), hiff '{' (by decide), hiff '[' (by decide),
    hiff '}' (by decide), hiff ']' (by decide), hiff ')' (by decide), if_neg hbackslash]
  split
  · rfl
  · split
    · rfl
    · split
      · next hcloses =>
        -- only the delimiter that is open innermost can be closed
        have hclosed : some inner ≠ some (if c = '}' then Delimiter.brace else .bracket) ↔
            c ≠ inner.closing := by
          rcases hcloses with rfl | rfl <;> cases inner <;> decide
        rw [List.head?_cons]
        by_cases hinner : c = inner.closing
        · rw [if_neg (by rw [hclosed]; exact not_not.mpr hinner), if_pos hinner, Option.bind_some]
          cases outer <;> simp
        · rw [if_pos (hclosed.mpr hinner), if_neg hinner, Option.bind_none]
      · have hparenthesis : c = ')' ∧ inner :: outer = [.parenthesis] ↔
            c = ')' ∧ inner = .parenthesis := by
          refine and_congr_right fun _ => ⟨fun h => (List.cons.inj h).1, ?_⟩
          rintro rfl
          rw [hnests.eq_nil]
        rw [if_congr hparenthesis rfl rfl]
        split
        · rfl
        · rw [Option.bind_some, if_neg (List.cons_ne_nil _ _)]

/-- What the reader takes of a text whose beginning it has passed over, in bytes. -/
theorem map_closeArgument_append (inner : Delimiter) (outer : List Delimiter) (taken pos : Nat)
    (front cs : List Char) :
    (closeArgument inner outer (taken + front.length) cs).map
        (fun n => pos + Text.byteLength ((front ++ cs).take (n - taken))) =
      (closeArgument inner outer (taken + front.length) cs).map
        (fun n => pos + Text.byteLength front +
          Text.byteLength (cs.take (n - (taken + front.length)))) := by
  refine Option.map_congr fun n hn => ?_
  have hlt := lt_of_closeArgument hn
  rw [List.take_append, List.take_of_length_le (by omega), Text.byteLength_append, Nat.sub_sub]
  omega

/-- Reading the bytes of a text leads to where reading its characters leads. -/
theorem closeBytes_encode {inner : Delimiter} {outer : List Delimiter}
    (hnests : Nests (inner :: outer)) (pos taken : Nat) (cs : List Char) :
    closeBytes (inner :: outer) pos (Text.encode cs) =
      (closeArgument inner outer taken cs).map
        fun n => pos + Text.byteLength (cs.take (n - taken)) := by
  induction hlength : cs.length using Nat.strongRecOn generalizing cs inner outer pos taken with
  | ind length ih =>
    cases cs with
    | nil => rw [Text.encode_nil, closeBytes]; rfl
    | cons c cs =>
      rw [List.length_cons] at hlength
      by_cases hbackslash : c = '\\'
      · subst hbackslash
        rw [Text.encode_cons, Text.utf8EncodeChar_of_lt (by decide), List.singleton_append,
          closeBytes, if_pos rfl]
        cases cs with
        | nil => rw [Text.encode_nil, List.drop_nil, closeBytes]; rfl
        | cons d cs =>
          rw [List.length_cons] at hlength
          -- the first byte of the escaped character is taken out, and the others mean nothing
          have hdropped : (Text.encode (d :: cs)).drop 1 =
              (String.utf8EncodeChar d).drop 1 ++ Text.encode cs := by
            rw [Text.encode_cons, List.drop_append_of_le_length]
            rw [String.length_utf8EncodeChar]
            exact d.utf8Size_pos
          have hhigh : ∀ b ∈ (String.utf8EncodeChar d).drop 1, 128 ≤ b.toNat := by
            intro b hb
            by_cases hd : d.toNat < 128
            · rw [Text.utf8EncodeChar_of_lt hd] at hb
              exact absurd hb List.not_mem_nil
            · exact Text.le_of_mem_utf8EncodeChar (by omega) (List.mem_of_mem_drop hb)
          have hsize : pos + 2 + ((String.utf8EncodeChar d).drop 1).length =
              pos + Text.byteLength ['\\', d] := by
            have hpos := d.utf8Size_pos
            rw [List.length_drop, String.length_utf8EncodeChar]
            show _ = pos + (1 + (d.utf8Size + 0))
            omega
          rw [hdropped, closeBytes_high hhigh, hsize, closeArgument,
            ih cs.length (by omega) hnests _ (taken + 2) cs rfl]
          exact (map_closeArgument_append inner outer taken pos ['\\', d] cs).symm
      · by_cases hc : c.toNat < 128
        · rw [Text.encode_cons, Text.utf8EncodeChar_of_lt hc, List.singleton_append,
            closeBytes_char hc hbackslash hnests, closeArgument_eq_resume hbackslash]
          have hsize : c.utf8Size = 1 := by
            rw [← String.length_utf8EncodeChar, Text.utf8EncodeChar_of_lt hc]
            rfl
          cases hstack : openAfter c inner outer with
          | none => rfl
          | some stack =>
            cases stack with
            | nil => simp [resume, hsize]
            | cons inner' outer' =>
              have hrest := ih cs.length (by omega) (hnests.openAfter hstack) (pos + 1) (taken + 1)
                cs rfl
              have hfront := map_closeArgument_append inner' outer' taken pos [c] cs
              rw [Text.byteLength_cons, Text.byteLength_nil, hsize] at hfront
              rw [Option.bind_some, if_neg (List.cons_ne_nil _ _), hrest]
              exact hfront.symm
        · -- all bytes of the character mean nothing, and neither does the character
          have hother : c ∉ structural := by
            intro hmem
            have hsmall : structural.all (fun c => decide (c.toNat < 128)) = true := by decide
            exact hc (by simpa using List.all_eq_true.mp hsmall c hmem)
          rw [Text.encode_cons, closeBytes_high fun b hb => Text.le_of_mem_utf8EncodeChar
            (by omega) hb, String.length_utf8EncodeChar, closeArgument_eq_resume hbackslash,
            openAfter_other hother, ih cs.length (by omega) hnests _ (taken + 1) cs rfl]
          exact (map_closeArgument_append inner outer taken pos [c] cs).symm

/-- The end of an argument may be read off the bytes of the source. -/
theorem argumentEndInBytes?_eq (kind : Delimiter) (source : String) (start : Nat) :
    argumentEndInBytes? kind source.toUTF8.data.toList start = argumentEnd? kind source start := by
  have hopening : kind.opening.toNat < 128 := by cases kind <;> decide
  rw [Text.data_toUTF8, argumentEndInBytes?]
  split
  · next hbyte =>
    obtain ⟨c, rest, hdrop, hc, heq⟩ := Text.exists_of_getElem?_encode hbyte
      (by rwa [Text.toNat_toUInt8 hopening])
    obtain rfl := (Text.toUInt8_inj hc hopening).mp heq
    have hrest : (Text.encode source.toList).drop (start + 1) = Text.encode rest := by
      rw [← List.drop_drop, Text.drop_encode hdrop, Text.encode_cons,
        Text.utf8EncodeChar_of_lt hc]
      rfl
    have hsize : kind.opening.utf8Size = 1 := by cases kind <;> rfl
    have hfront := map_closeArgument_append kind [] 0 start [kind.opening] rest
    rw [Text.byteLength_cons, Text.byteLength_nil, hsize] at hfront
    have hend : argumentEnd? kind source start = (closeArgument kind [] 1 rest).map
        fun n => start + Text.byteLength ((kind.opening :: rest).take n) := by
      have hargument : argument? kind (kind.opening :: rest) = closeArgument kind [] 1 rest :=
        if_pos rfl
      rw [argumentEnd?, Text.measureAt?_eq_map hdrop, hargument, Option.map_map]
      rfl
    rw [hrest, closeBytes_encode (nests_singleton kind) _ 1, hend]
    exact hfront.symm
  · next hbyte =>
    -- no argument begins where there is no opening delimiter
    symm
    rw [Option.eq_none_iff_forall_ne_some]
    intro stop hstop
    obtain ⟨text, hslice, body, -, htext⟩ := argumentEnd?_eq_some_iff.mp hstop
    obtain ⟨rest, hdrop, -⟩ := Text.slice?_eq_some_iff.mp hslice
    refine hbyte ?_
    have hbytes := Text.drop_encode hdrop
    rw [htext, List.cons_append, Text.encode_cons, Text.utf8EncodeChar_of_lt hopening] at hbytes
    rw [← Nat.add_zero start, ← List.getElem?_drop, hbytes]
    rfl

/-- Whatever the source and the place, and also if the place is inside a character or past the end:
    an argument is found there if and only if the source goes on with one, and its end is where that
    one ends.  There is at most one such end, it lies between two characters of the source, and
    reading the source byte by byte, with a backslash that escapes one byte, finds the same. -/
theorem arguments_follow_grammar (kind : Delimiter) (source : String) (start : Nat) :
    (∀ stop, argumentEnd? kind source start = some stop ↔
      ∃ text, Text.slice? source start stop = some text ∧ IsArgument kind text.toList) ∧
    (∀ stop stop' text text', Text.slice? source start stop = some text →
      IsArgument kind text.toList → Text.slice? source start stop' = some text' →
      IsArgument kind text'.toList → stop = stop') ∧
    (∀ stop, argumentEnd? kind source start = some stop →
      (String.Pos.Raw.mk stop).IsValid source ∧ stop ≤ source.utf8ByteSize) ∧
    argumentEndInBytes? kind source.toUTF8.data.toList start = argumentEnd? kind source start := by
  refine ⟨fun stop => argumentEnd?_eq_some_iff, ?_, ?_, argumentEndInBytes?_eq kind source start⟩
  · intro stop stop' text text' hslice htext hslice' htext'
    -- both are where the reader ends
    have hstop := argumentEnd?_eq_some_iff.mpr ⟨text, hslice, htext⟩
    have hstop' := argumentEnd?_eq_some_iff.mpr ⟨text', hslice', htext'⟩
    exact Option.some.inj (hstop.symm.trans hstop')
  · intro stop hstop
    obtain ⟨text, hslice, -⟩ := argumentEnd?_eq_some_iff.mp hstop
    obtain ⟨rest, hdrop, rfl⟩ := Text.slice?_eq_some_iff.mp hslice
    have hend := Text.dropBytes?_of_dropBytes? hdrop rfl
    refine ⟨Text.isValid_of_dropBytes? hend, ?_⟩
    obtain ⟨front, hfront, hlength⟩ := Text.exists_append_of_dropBytes?_eq_some hend
    rw [← Text.byteLength_toList, ← hfront, Text.byteLength_append]
    omega

/-- An argument in parentheses with a group that holds a closing one, and with an escaped character
    of two bytes before its end. -/
theorem arguments_follow_grammar_escaped :
    argumentEnd? .parenthesis "x(\x7b)\x7d\\ä)y" 1 = some 9 ∧
    (∃ text, Text.slice? "x(\x7b)\x7d\\ä)y" 1 9 = some text ∧
      IsArgument .parenthesis text.toList) ∧
    (String.Pos.Raw.mk 9).IsValid "x(\x7b)\x7d\\ä)y" ∧
    argumentEndInBytes? .parenthesis "x(\x7b)\x7d\\ä)y".toUTF8.data.toList 1 = some 9 := by
  obtain ⟨hiff, -, hvalid, hbytes⟩ := arguments_follow_grammar .parenthesis "x(\x7b)\x7d\\ä)y" 1
  have hend : argumentEnd? .parenthesis "x(\x7b)\x7d\\ä)y" 1 = some 9 := by decide +kernel
  exact ⟨hend, (hiff 9).mp hend, (hvalid 9 hend).1, hbytes.trans hend⟩

end ProseLens.Signature
