import Mathlib.Data.List.Induction
import Mathlib.Data.Prod.Lex
import Mathlib.Order.Compare
import ProseLens.Proofs.Signature.Grammar

/-!
# The longest match

Signatures of one name that match at the same place agree as far as both go.  Each argument begins
where the one before it has ended, after a comment if there is one, and its first character says of
which kind it is.  So the shorter list of arguments is a beginning of the longer one, and a longer
list takes more of the text.

The best of several candidates is found by a single pass that replaces the match it has by one that
overrides it.  Since overriding is an order on matches (`overrides_iff`), the pass finds the last of
the greatest ones.

## Key results

- `prefix_of_argumentsLength?`, `argumentsLength?_lt`: two lists of arguments at the same place
- `longest?_spec`: the best of several candidates, and when there is none
- `longest_is_lexicographic_maximum`: the same at a byte offset, with the order spelled out
-/

namespace ProseLens.Signature

/-! ## Lists of arguments at one place -/

/-- Delimiters differ in how they open. -/
theorem opening_injective {d e : Delimiter} (h : d.opening = e.opening) : d = e := by
  cases d <;> cases e <;> first | rfl | exact absurd h (by decide)

/-- The first character of an argument says of which kind it is. -/
theorem kind_eq_of_argument? {d e : Delimiter} {cs : List Char} {n m : Nat}
    (h : argument? d cs = some n) (h' : argument? e cs = some m) : d = e := by
  obtain ⟨_, rest, rfl, ⟨body, -, rfl⟩, -⟩ := argument?_eq_some_iff.mp h
  obtain ⟨_, rest', heq, ⟨body', -, rfl⟩, -⟩ := argument?_eq_some_iff.mp h'
  exact opening_injective (List.cons.inj heq).1

/-- An argument is no longer than the text. -/
theorem le_length_of_argument? {d : Delimiter} {cs : List Char} {n : Nat}
    (h : argument? d cs = some n) : n ≤ cs.length := by
  obtain ⟨text, rest, rfl, -, rfl⟩ := argument?_eq_some_iff.mp h
  rw [List.length_append]
  omega

/-- A list of arguments begins with its first one. -/
theorem argumentsLength?_cons_eq_some_iff {kind : Delimiter} {kinds : List Delimiter}
    {cs : List Char} {n : Nat} :
    argumentsLength? (kind :: kinds) cs = some n ↔
      ∃ m k, argument? kind (cs.drop (Token.commentLength cs)) = some m ∧
        argumentsLength? kinds (cs.drop (Token.commentLength cs + m)) = some k ∧
        Token.commentLength cs + m + k = n := by
  rw [argumentsLength?]
  cases hargument : argument? kind (cs.drop (Token.commentLength cs)) with
  | none => simp
  | some m => simp [Option.map_eq_some_iff]

/-- Arguments in a row are no longer than the text. -/
theorem argumentsLength?_le_length {kinds : List Delimiter} {cs : List Char} {n : Nat}
    (h : argumentsLength? kinds cs = some n) : n ≤ cs.length := by
  induction kinds generalizing cs n with
  | nil =>
    obtain rfl := Option.some.inj h
    exact Nat.zero_le _
  | cons kind kinds ih =>
    obtain ⟨m, k, hm, hk, rfl⟩ := argumentsLength?_cons_eq_some_iff.mp h
    have hle := le_length_of_argument? hm
    have hpos := argument?_pos hm
    have hrest := ih hk
    -- the comment in front and the argument itself are both within the text
    rw [List.length_drop] at hle hrest
    omega

/-- Of two lists of arguments at one place the shorter is a beginning of the longer. -/
theorem prefix_of_argumentsLength? {kinds kinds' : List Delimiter} {cs : List Char} {n m : Nat}
    (h : argumentsLength? kinds cs = some n) (h' : argumentsLength? kinds' cs = some m)
    (hle : kinds.length ≤ kinds'.length) : kinds <+: kinds' := by
  induction kinds generalizing kinds' cs n m with
  | nil => exact List.nil_prefix
  | cons kind kinds ih =>
    cases kinds' with
    | nil => simp at hle
    | cons kind' kinds' =>
      obtain ⟨a, k, ha, hk, -⟩ := argumentsLength?_cons_eq_some_iff.mp h
      obtain ⟨a', k', ha', hk', -⟩ := argumentsLength?_cons_eq_some_iff.mp h'
      -- the first arguments are of one kind, so that they end at the same place
      obtain rfl := kind_eq_of_argument? ha ha'
      obtain rfl : a = a' := Option.some.inj (ha.symm.trans ha')
      exact List.cons_prefix_cons.mpr ⟨rfl, ih hk hk' (Nat.le_of_succ_le_succ hle)⟩

/-- A longer list of arguments takes more of the text. -/
theorem argumentsLength?_lt {kinds kinds' : List Delimiter} {cs : List Char} {n m : Nat}
    (h : argumentsLength? kinds cs = some n) (h' : argumentsLength? kinds' cs = some m)
    (hlt : kinds.length < kinds'.length) : n < m := by
  induction kinds generalizing kinds' cs n m with
  | nil =>
    cases kinds' with
    | nil => simp at hlt
    | cons kind' kinds' =>
      obtain ⟨a', k', ha', -, rfl⟩ := argumentsLength?_cons_eq_some_iff.mp h'
      have hpos := argument?_pos ha'
      obtain rfl := Option.some.inj h
      omega
  | cons kind kinds ih =>
    cases kinds' with
    | nil => simp at hlt
    | cons kind' kinds' =>
      obtain ⟨a, k, ha, hk, rfl⟩ := argumentsLength?_cons_eq_some_iff.mp h
      obtain ⟨a', k', ha', hk', rfl⟩ := argumentsLength?_cons_eq_some_iff.mp h'
      -- both begin with the same argument
      obtain rfl := kind_eq_of_argument? ha ha'
      obtain rfl : a = a' := Option.some.inj (ha.symm.trans ha')
      have hrest := ih hk hk' (Nat.lt_of_succ_lt_succ hlt)
      omega

/-! ## Commands of one name -/

namespace Command

variable {c d : Command} {cs : List Char} {n m : Nat}

/-- A command is its name and after it its arguments. -/
theorem length?_eq_some_iff :
    c.length? cs = some n ↔
      ∃ rest k, cs = c.name.toList ++ rest ∧ argumentsLength? c.arguments rest = some k ∧
        c.name.length + k = n := by
  unfold length?
  cases hstrip : Text.stripFront? c.name.toList cs with
  -- a text that starts with the name would have been stripped of it
  | none =>
    simp only [reduceCtorEq, false_iff]
    rintro ⟨rest, k, rfl, -⟩
    rw [Text.stripFront?_append] at hstrip
    cases hstrip
  | some rest =>
    obtain rfl := Text.stripFront?_eq_some_iff.mp hstrip
    simp [Option.map_eq_some_iff]

/-- A match is no longer than the text. -/
theorem length?_le_length (h : c.length? cs = some n) : n ≤ cs.length := by
  obtain ⟨rest, k, rfl, hk, rfl⟩ := length?_eq_some_iff.mp h
  have hle := argumentsLength?_le_length hk
  rw [List.length_append, String.length_toList]
  omega

/-- The arguments of two commands of one name, as far as both go. -/
theorem exists_argumentsLength? (hname : c.name = d.name) (h : c.length? cs = some n)
    (h' : d.length? cs = some m) :
    ∃ rest k j, argumentsLength? c.arguments rest = some k ∧
      argumentsLength? d.arguments rest = some j ∧ n = c.name.length + k ∧
      m = c.name.length + j := by
  obtain ⟨rest, k, rfl, hk, rfl⟩ := length?_eq_some_iff.mp h
  obtain ⟨rest', j, heq, hj, rfl⟩ := length?_eq_some_iff.mp h'
  rw [← hname] at heq ⊢
  obtain rfl := List.append_cancel_left heq
  exact ⟨rest, k, j, hk, hj, rfl, rfl⟩

/-- Of two commands of one name that match, the arguments of one begin those of the other. -/
theorem prefix_of_length? (hname : c.name = d.name) (h : c.length? cs = some n)
    (h' : d.length? cs = some m) (hle : c.arguments.length ≤ d.arguments.length) :
    c.arguments <+: d.arguments := by
  obtain ⟨rest, k, j, hk, hj, -, -⟩ := exists_argumentsLength? hname h h'
  exact prefix_of_argumentsLength? hk hj hle

/-- Of two commands of one name, the one with more arguments matches more. -/
theorem length?_lt (hname : c.name = d.name) (h : c.length? cs = some n)
    (h' : d.length? cs = some m) (hlt : c.arguments.length < d.arguments.length) : n < m := by
  obtain ⟨rest, k, j, hk, hj, rfl, rfl⟩ := exists_argumentsLength? hname h h'
  have hlt' := argumentsLength?_lt hk hj hlt
  omega

/-- Commands of one name with the same arguments match alike. -/
theorem length?_congr (hname : c.name = d.name) (harguments : c.arguments = d.arguments)
    (cs : List Char) : c.length? cs = d.length? cs := by
  rw [length?, length?, hname, harguments]

/-- Of two commands of one name that match at one place, the one with more arguments takes more. -/
theorem compare_length? (hname : c.name = d.name) (h : c.length? cs = some n)
    (h' : d.length? cs = some m) :
    compare n m = compare c.arguments.length d.arguments.length := by
  rcases Nat.lt_trichotomy c.arguments.length d.arguments.length with hlt | heq | hgt
  · rw [compare_lt_iff_lt.mpr hlt, compare_lt_iff_lt.mpr (length?_lt hname h h' hlt)]
  · -- lists of the same length are the same list
    have harguments := (prefix_of_length? hname h h' (Nat.le_of_eq heq)).eq_of_length heq
    rw [length?_congr hname harguments, h'] at h
    rw [Option.some.inj h, heq, compare_eq_iff_eq.mpr rfl, compare_eq_iff_eq.mpr rfl]
  · rw [compare_gt_iff_gt.mpr hgt, compare_gt_iff_gt.mpr (length?_lt hname.symm h' h hgt)]

end Command

/-! ## The best of several candidates -/

section Best

variable {α : Type} {command : α → Command} {ignoresAll : α → Bool} {cs : List Char}

/-- What matches are compared by: their lengths, and then whether they ignore all arguments. -/
def Match.rank (ignoresAll : α → Bool) (m : Match α) : Nat ×ₗ Bool :=
  toLex (m.length, ignoresAll m.signature)

/-- A later match overrides one that it is not below. -/
theorem Match.overrides_iff {later earlier : Match α} :
    Match.overrides ignoresAll later earlier = true ↔
      earlier.rank ignoresAll ≤ later.rank ignoresAll := by
  rw [rank, rank, Prod.Lex.toLex_le_toLex]
  simp only [overrides, Bool.or_eq_true, Bool.and_eq_true, decide_eq_true_eq, beq_iff_eq,
    eq_comm (a := earlier.length)]
  cases ignoresAll later.signature <;> cases ignoresAll earlier.signature <;> simp

/-- One more candidate takes the place of the best one if it overrides it. -/
theorem longest?_append_singleton (candidates : List α) (candidate : α) :
    longest? command ignoresAll (candidates ++ [candidate]) cs =
      match (command candidate).length? cs, longest? command ignoresAll candidates cs with
      | none, best => best
      | some n, none => some ⟨candidate, n⟩
      | some n, some earlier =>
        if Match.overrides ignoresAll ⟨candidate, n⟩ earlier then some ⟨candidate, n⟩
        else some earlier := by
  rw [longest?, List.foldl_append]
  rfl

/-- `best` is the best of the candidates: it stands among them and matches, no match before it
    outranks it, and every match behind it ranks below it. -/
def IsBest (command : α → Command) (ignoresAll : α → Bool) (cs : List Char) (candidates : List α)
    (best : Match α) : Prop :=
  ∃ front back, candidates = front ++ best.signature :: back ∧
    (command best.signature).length? cs = some best.length ∧
    (∀ c ∈ front, ∀ n, (command c).length? cs = some n →
      Match.rank ignoresAll ⟨c, n⟩ ≤ best.rank ignoresAll) ∧
    (∀ c ∈ back, ∀ n, (command c).length? cs = some n →
      Match.rank ignoresAll ⟨c, n⟩ < best.rank ignoresAll)

/-- One more candidate that does not match or ranks below changes nothing. -/
theorem IsBest.append_other {candidates : List α} {best : Match α} {candidate : α}
    (h : IsBest command ignoresAll cs candidates best)
    (hbelow : ∀ n, (command candidate).length? cs = some n →
      Match.rank ignoresAll ⟨candidate, n⟩ < best.rank ignoresAll) :
    IsBest command ignoresAll cs (candidates ++ [candidate]) best := by
  obtain ⟨front, back, rfl, hbest, hfront, hback⟩ := h
  refine ⟨front, back ++ [candidate], by simp, hbest, hfront, ?_⟩
  intro c hc
  rcases List.mem_append.mp hc with hc | hc
  · exact hback c hc
  · rw [List.mem_singleton.mp hc]
    exact hbelow

/-- One more candidate that is outranked by no one is the best. -/
theorem IsBest.append_self {candidates : List α} {candidate : α} {n : Nat}
    (h : (command candidate).length? cs = some n)
    (habove : ∀ c ∈ candidates, ∀ m, (command c).length? cs = some m →
      Match.rank ignoresAll ⟨c, m⟩ ≤ Match.rank ignoresAll ⟨candidate, n⟩) :
    IsBest command ignoresAll cs (candidates ++ [candidate]) ⟨candidate, n⟩ :=
  ⟨candidates, [], rfl, h, habove, by simp⟩

/-- No candidate outranks the best. -/
theorem IsBest.rank_le {candidates : List α} {best : Match α}
    (h : IsBest command ignoresAll cs candidates best) {c : α} (hc : c ∈ candidates) {n : Nat}
    (hn : (command c).length? cs = some n) :
    Match.rank ignoresAll ⟨c, n⟩ ≤ best.rank ignoresAll := by
  obtain ⟨front, back, rfl, hbest, hfront, hback⟩ := h
  rcases List.mem_append.mp hc with hc | hc
  · exact hfront c hc n hn
  · rcases List.mem_cons.mp hc with rfl | hc
    · rw [hbest] at hn
      rw [← Option.some.inj hn]
    · exact le_of_lt (hback c hc n hn)

/-- The pass finds no candidate only if none matches, and the best one otherwise. -/
theorem longest?_spec (command : α → Command) (ignoresAll : α → Bool) (cs : List Char)
    (candidates : List α) :
    match longest? command ignoresAll candidates cs with
    | none => ∀ c ∈ candidates, (command c).length? cs = none
    | some best => IsBest command ignoresAll cs candidates best := by
  induction candidates using List.reverseRecOn with
  | nil => simp [longest?]
  | append_singleton candidates candidate ih =>
    rw [longest?_append_singleton]
    cases hcandidate : (command candidate).length? cs with
    | none =>
      cases hbest : longest? command ignoresAll candidates cs with
      | none =>
        rw [hbest] at ih
        simpa [or_imp, forall_and, hcandidate] using ih
      | some best =>
        rw [hbest] at ih
        exact ih.append_other (by simp [hcandidate])
    | some n =>
      cases hbest : longest? command ignoresAll candidates cs with
      | none =>
        rw [hbest] at ih
        refine IsBest.append_self hcandidate ?_
        intro c hc m hm
        rw [ih c hc] at hm
        cases hm
      | some earlier =>
        rw [hbest] at ih
        dsimp only
        by_cases hoverrides : Match.overrides ignoresAll ⟨candidate, n⟩ earlier = true
        · -- it is not below the best so far, and hence not below any other
          rw [if_pos hoverrides]
          refine IsBest.append_self hcandidate ?_
          intro c hc m hm
          exact le_trans (ih.rank_le hc hm) (Match.overrides_iff.mp hoverrides)
        · rw [if_neg hoverrides]
          refine ih.append_other ?_
          intro m hm
          obtain rfl : n = m := Option.some.inj (hcandidate.symm.trans hm)
          exact lt_of_not_ge fun hle => hoverrides (Match.overrides_iff.mpr hle)

/-- Nothing is found if no candidate matches. -/
theorem longest?_eq_none_iff {candidates : List α} :
    longest? command ignoresAll candidates cs = none ↔
      ∀ c ∈ candidates, (command c).length? cs = none := by
  have hspec := longest?_spec command ignoresAll cs candidates
  cases hbest : longest? command ignoresAll candidates cs with
  | none =>
    rw [hbest] at hspec
    exact iff_of_true rfl hspec
  | some best =>
    rw [hbest] at hspec
    obtain ⟨front, back, rfl, hmatch, -⟩ := hspec
    -- the best one found is a candidate that matches
    refine iff_of_false (by simp) fun hnone => ?_
    rw [hnone best.signature (by simp)] at hmatch
    cases hmatch

/-- What is found is the best of the candidates. -/
theorem isBest_of_longest? {candidates : List α} {best : Match α}
    (h : longest? command ignoresAll candidates cs = some best) :
    IsBest command ignoresAll cs candidates best := by
  have hspec := longest?_spec command ignoresAll cs candidates
  rwa [h] at hspec

end Best

/-! ## At a byte offset -/

section Bytes

variable {source : String} {offset : Nat} {cs : List Char}

/-- Ends in bytes compare as the numbers of characters do. -/
theorem compare_byteLength_take (offset : Nat) {n m : Nat} (hn : n ≤ cs.length)
    (hm : m ≤ cs.length) :
    compare (offset + Text.byteLength (cs.take n)) (offset + Text.byteLength (cs.take m)) =
      compare n m := by
  rcases Nat.lt_trichotomy n m with hlt | rfl | hgt
  · have hbytes := Text.byteLength_take_lt hlt hm
    rw [compare_lt_iff_lt.mpr hlt, compare_lt_iff_lt.mpr (by omega)]
  · rw [compare_eq_iff_eq.mpr rfl, compare_eq_iff_eq.mpr rfl]
  · have hbytes := Text.byteLength_take_lt hgt hn
    rw [compare_gt_iff_gt.mpr hgt, compare_gt_iff_gt.mpr (by omega)]

/-- Nothing matches at an offset that is no boundary. -/
theorem Command.matchEnd?_eq_none {c : Command} (h : Text.dropBytes? source.toList offset = none) :
    c.matchEnd? source offset = none := by
  rw [matchEnd?, Text.measureAt?, h]
  rfl

/-- A match that ends at byte `stop` takes a number of characters at that place. -/
theorem Command.matchEnd?_eq_some_iff {c : Command} {stop : Nat}
    (h : Text.dropBytes? source.toList offset = some cs) :
    c.matchEnd? source offset = some stop ↔
      ∃ n, c.length? cs = some n ∧ offset + Text.byteLength (cs.take n) = stop := by
  rw [matchEnd?, Text.measureAt?_eq_map h, Option.map_map, Option.map_eq_some_iff]
  rfl

/-- Two commands of one name that match at one place: one list of arguments is a beginning of the
    other, and the ends compare as the lengths of the lists do. -/
theorem Command.matchEnd?_compare {c d : Command} {stop stop' : Nat} (hname : c.name = d.name)
    (h : c.matchEnd? source offset = some stop) (h' : d.matchEnd? source offset = some stop') :
    (c.arguments <+: d.arguments ∨ d.arguments <+: c.arguments) ∧
      compare stop stop' = compare c.arguments.length d.arguments.length ∧
      (stop = stop' ↔ c.arguments = d.arguments) := by
  cases hdrop : Text.dropBytes? source.toList offset with
  | none =>
    rw [matchEnd?_eq_none hdrop] at h
    cases h
  | some cs =>
    obtain ⟨n, hn, rfl⟩ := (matchEnd?_eq_some_iff hdrop).mp h
    obtain ⟨m, hm, rfl⟩ := (matchEnd?_eq_some_iff hdrop).mp h'
    -- stops compare as the numbers of characters do, and these as the numbers of arguments
    have hcompare := compare_byteLength_take offset (length?_le_length hn) (length?_le_length hm)
    rw [compare_length? hname hn hm] at hcompare
    refine ⟨?_, hcompare, ?_⟩
    · rcases Nat.le_total c.arguments.length d.arguments.length with hle | hle
      · exact .inl (prefix_of_length? hname hn hm hle)
      · exact .inr (prefix_of_length? hname.symm hm hn hle)
    · constructor
      · intro heq
        rw [compare_eq_iff_eq.mpr heq] at hcompare
        have hlength := compare_eq_iff_eq.mp hcompare.symm
        exact (prefix_of_length? hname hn hm (Nat.le_of_eq hlength)).eq_of_length hlength
      · intro harguments
        rw [harguments, compare_eq_iff_eq.mpr rfl] at hcompare
        exact compare_eq_iff_eq.mp hcompare

variable {α : Type} {command : α → Command} {ignoresAll : α → Bool} {candidates : List α}

/-- Nothing is found at an offset that is no boundary. -/
theorem longestAt?_eq_none (h : Text.dropBytes? source.toList offset = none) :
    longestAt? command ignoresAll candidates source offset = none := by
  rw [longestAt?, h]
  rfl

/-- At a boundary the longest match of the text from there on is found. -/
theorem longestAt?_eq_map (h : Text.dropBytes? source.toList offset = some cs) :
    longestAt? command ignoresAll candidates source offset =
      (longest? command ignoresAll candidates cs).map fun best =>
        ⟨best.signature, offset, offset + Text.byteLength (cs.take best.length)⟩ := by
  simp only [longestAt?, h, Option.bind_eq_bind, Option.bind_some]
  cases longest? command ignoresAll candidates cs <;> rfl

/-- No candidate is found if and only if none matches. -/
theorem longestAt?_eq_none_iff :
    longestAt? command ignoresAll candidates source offset = none ↔
      ∀ c ∈ candidates, (command c).matchEnd? source offset = none := by
  cases hdrop : Text.dropBytes? source.toList offset with
  | none =>
    exact iff_of_true (longestAt?_eq_none hdrop) fun c _ => Command.matchEnd?_eq_none hdrop
  | some cs =>
    rw [longestAt?_eq_map hdrop, Option.map_eq_none_iff, longest?_eq_none_iff]
    simp only [Command.matchEnd?, Text.measureAt?_eq_map hdrop, Option.map_eq_none_iff]

/-- A match of lower rank is below in the order of ends, whatever the positions, and one of no
    higher rank is so unless it stands behind. -/
theorem lex_le_of_rank {c d : α} {n m i j : Nat} (hm : m ≤ cs.length)
    (hle : Match.rank ignoresAll ⟨c, n⟩ ≤ Match.rank ignoresAll ⟨d, m⟩)
    (hposition : j ≤ i ∨ Match.rank ignoresAll ⟨c, n⟩ < Match.rank ignoresAll ⟨d, m⟩) :
    toLex (offset + Text.byteLength (cs.take n), toLex (ignoresAll c, j)) ≤
      toLex (offset + Text.byteLength (cs.take m), toLex (ignoresAll d, i)) := by
  simp only [Match.rank, Prod.Lex.toLex_le_toLex, Prod.Lex.toLex_lt_toLex] at hle hposition ⊢
  rcases hle with hlt | ⟨rfl, hignores⟩
  -- the longer match ends at a later byte
  · left
    have hbytes := Text.byteLength_take_lt hlt hm
    omega
  · right
    refine ⟨rfl, ?_⟩
    -- equal lengths: a bare name wins, and among equals the later entry
    rcases hposition with hposition | hlt | ⟨-, hignores⟩
    · rcases lt_or_eq_of_le hignores with hlt | heq
      · exact .inl hlt
      · exact .inr ⟨heq, hposition⟩
    · omega
    · exact .inl hignores

/-- The candidate that is found is the last of the greatest. -/
theorem exists_index_of_longestAt? {best : Located α}
    (h : longestAt? command ignoresAll candidates source offset = some best) :
    ∃ i : Nat, candidates[i]? = some best.signature ∧ best.start = offset ∧
      (command best.signature).matchEnd? source offset = some best.stop ∧
      ∀ (j : Nat) (c : α) (stop : Nat), candidates[j]? = some c →
        (command c).matchEnd? source offset = some stop →
        toLex (stop, toLex (ignoresAll c, j)) ≤
          toLex (best.stop, toLex (ignoresAll best.signature, i)) := by
  cases hdrop : Text.dropBytes? source.toList offset with
  | none =>
    rw [longestAt?_eq_none hdrop] at h
    cases h
  | some cs =>
    rw [longestAt?_eq_map hdrop, Option.map_eq_some_iff] at h
    obtain ⟨found, hfound, rfl⟩ := h
    have hbest := isBest_of_longest? hfound
    obtain ⟨front, back, hsplit, hlength, -, hback⟩ := hbest
    refine ⟨front.length, by simp [hsplit], rfl,
      (Command.matchEnd?_eq_some_iff hdrop).mpr ⟨found.length, hlength, rfl⟩, ?_⟩
    intro j c stop hc hstop
    obtain ⟨n, hn, rfl⟩ := (Command.matchEnd?_eq_some_iff hdrop).mp hstop
    have hrank := (isBest_of_longest? hfound).rank_le (List.mem_of_getElem? hc) hn
    refine lex_le_of_rank (Command.length?_le_length hlength) hrank ?_
    by_cases hle : j ≤ front.length
    · exact .inl hle
    · -- what stands behind the best ranks below it
      right
      refine hback c ?_ n hn
      rw [hsplit, List.getElem?_append_right (by omega)] at hc
      obtain ⟨k, hk⟩ : ∃ k, j - front.length = k + 1 := ⟨j - front.length - 1, by omega⟩
      rw [hk, List.getElem?_cons_succ] at hc
      exact List.mem_of_getElem? hc

/-- The arguments of a candidate that matches are a beginning of those of the best one, if both have
    the same name. -/
theorem arguments_prefix_of_longestAt? {best : Located α} {c : α} {stop : Nat}
    (h : longestAt? command ignoresAll candidates source offset = some best) (hc : c ∈ candidates)
    (hname : (command c).name = (command best.signature).name)
    (hstop : (command c).matchEnd? source offset = some stop) :
    (command c).arguments <+: (command best.signature).arguments ∧
      (stop = best.stop ↔ (command c).arguments = (command best.signature).arguments) := by
  obtain ⟨i, -, -, hend, hmax⟩ := exists_index_of_longestAt? h
  obtain ⟨hbegins, hcompare, hiff⟩ := Command.matchEnd?_compare hname hstop hend
  refine ⟨?_, hiff⟩
  -- more arguments would take more of the text than the best does
  obtain ⟨j, hj⟩ := List.mem_iff_getElem?.mp hc
  have hle : stop ≤ best.stop := Prod.Lex.monotone_fst _ _ (hmax j c stop hj hstop)
  have hlength : (command c).arguments.length ≤ (command best.signature).arguments.length := by
    rw [← compare_le_iff_le] at hle ⊢
    rwa [← hcompare]
  rcases hbegins with hbegins | hbegins
  · exact hbegins
  · have heq := hbegins.eq_of_length_le hlength
    exact ⟨[], by rw [List.append_nil, heq]⟩

end Bytes

/-- Whatever the source and the place.  Of two commands of one name that match there, one list of
    arguments is a beginning of the other, and the ends compare as the lengths of the lists do.  Of
    any candidates none is found if and only if none matches, and otherwise the one with the
    greatest end, of those one that ignores all arguments, and of those the last.  So among
    candidates of one name the one with the most arguments is found, and only candidates with the
    same arguments end where it does. -/
theorem longest_is_lexicographic_maximum {α : Type} (command : α → Command) (ignoresAll : α → Bool)
    (candidates : List α) (source : String) (offset : Nat) :
    (∀ (c d : Command) (stop stop' : Nat), c.name = d.name →
      c.matchEnd? source offset = some stop → d.matchEnd? source offset = some stop' →
      (c.arguments <+: d.arguments ∨ d.arguments <+: c.arguments) ∧
      compare stop stop' = compare c.arguments.length d.arguments.length ∧
      (stop = stop' ↔ c.arguments = d.arguments)) ∧
    (longestAt? command ignoresAll candidates source offset = none ↔
      ∀ c ∈ candidates, (command c).matchEnd? source offset = none) ∧
    (∀ best, longestAt? command ignoresAll candidates source offset = some best →
      ∃ i : Nat, candidates[i]? = some best.signature ∧ best.start = offset ∧
        (command best.signature).matchEnd? source offset = some best.stop ∧
        ∀ (j : Nat) (c : α) (stop : Nat), candidates[j]? = some c →
          (command c).matchEnd? source offset = some stop →
          toLex (stop, toLex (ignoresAll c, j)) ≤
            toLex (best.stop, toLex (ignoresAll best.signature, i))) ∧
    (∀ best c stop, longestAt? command ignoresAll candidates source offset = some best →
      c ∈ candidates → (command c).name = (command best.signature).name →
      (command c).matchEnd? source offset = some stop →
      (command c).arguments.length ≤ (command best.signature).arguments.length ∧
      (stop = best.stop ↔ (command c).arguments = (command best.signature).arguments)) := by
  refine ⟨fun c d stop stop' hname h h' => Command.matchEnd?_compare hname h h',
    longestAt?_eq_none_iff, fun best h => exists_index_of_longestAt? h, ?_⟩
  intro best c stop h hc hname hstop
  obtain ⟨hbegins, hiff⟩ := arguments_prefix_of_longestAt? h hc hname hstop
  exact ⟨hbegins.length_le, hiff⟩

/-- Three forms of a citation, the last two with the same arguments: behind a character of two bytes
    and with a comment before its first argument, the last form is found. -/
theorem longest_is_lexicographic_maximum_citation :
    ∃ (candidates : List Command) (source : String) (best : Located Command),
      candidates = [⟨"\\cite", [.brace], .ignore⟩, ⟨"\\cite", [.bracket, .brace], .ignore⟩,
        ⟨"\\cite", [.bracket, .brace], .default⟩] ∧
      source = "ä\\cite%c\n[a]\x7bb\x7d\x7bc\x7d" ∧
      longestAt? id (fun _ => false) candidates source 2 = some best ∧
      best.signature.action = .default ∧ best.stop = 16 ∧
      ∀ c ∈ candidates, c.name = best.signature.name → c.matchEnd? source 2 = some 16 →
        c.arguments = best.signature.arguments := by
  refine ⟨_, _, ⟨⟨"\\cite", [.bracket, .brace], .default⟩, 2, 16⟩, rfl, rfl, rfl, rfl, rfl, ?_⟩
  intro c hc hname hstop
  obtain ⟨-, -, -, hmost⟩ := longest_is_lexicographic_maximum id (fun _ => false)
    [⟨"\\cite", [.brace], .ignore⟩, ⟨"\\cite", [.bracket, .brace], .ignore⟩,
      ⟨"\\cite", [.bracket, .brace], .default⟩] "ä\\cite%c\n[a]\x7bb\x7d\x7bc\x7d" 2
  exact (hmost _ c 16 rfl hc hname hstop).2.mp rfl

end ProseLens.Signature
