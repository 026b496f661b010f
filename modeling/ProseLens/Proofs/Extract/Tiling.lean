import ProseLens.Proofs.AnnotatedText.Mapping
import ProseLens.Proofs.Extract.Reachable
import ProseLens.Proofs.Text.Encoding

/-!
# Spans tile the source

The spans that an extraction gives are the source cut into pieces: nothing is lost, repeated or
moved, and every cut falls between two characters.  A lenient extraction always gives such spans,
and a strict one does unless it stalls.

The reading position is a cut of the same kind throughout: between any two iterations it stands
between two characters, at the end of what has been recorded and at the start of what is unread.
-/

namespace ProseLens

/-- What calls are given is their source. -/
theorem Span.join_raw (spans : List Span) :
    String.join (spans.map Span.raw) = String.ofList (Span.source spans) := by
  induction spans with
  | nil => rfl
  | cons span spans ih =>
    rw [List.map_cons, String.join_cons, ih, Span.source_cons, String.ofList_append,
      String.ofList_toList]

/-- Cutting a text where its second part begins and ends gives that part. -/
theorem Text.slice?_append (front part back : String) :
    Text.slice? (front ++ part ++ back) front.utf8ByteSize
      (front.utf8ByteSize + part.utf8ByteSize) = some part := by
  have hdrop := dropBytes?_append front.toList (part.toList ++ back.toList)
  have htext : (front ++ part ++ back).toList = front.toList ++ (part.toList ++ back.toList) := by
    simp
  rw [slice?_eq_some_iff, ← byteLength_toList front, ← byteLength_toList part, htext]
  exact ⟨back.toList, hdrop, rfl⟩

namespace AnnotatedText

/-- The breakpoints around a span cut its source out of the whole. -/
theorem Placed.slice?_sourceText {t : AnnotatedText} {span : Span} {low high : Breakpoint}
    (h : t.Placed span low high) :
    Text.slice? t.sourceText low.source high.source = some span.raw := by
  obtain ⟨before, later, hspans, rfl, rfl⟩ := h
  -- the breakpoint counts the bytes of all that lies before it
  have hsize :
      (String.join (before.map Span.raw)).utf8ByteSize = (Breakpoint.after before).source := by
    rw [utf8ByteSize_join, List.map_map]
    rfl
  have hslice := Text.slice?_append (String.join (before.map Span.raw)) span.raw
    (String.join (later.map Span.raw))
  rw [hsize] at hslice
  have hsource : t.sourceText = String.join (before.map Span.raw) ++ span.raw ++
      String.join (later.map Span.raw) := by
    simp [sourceText, hspans, String.append_assoc]
  rw [hsource]
  simpa using hslice

/-- Span `k` is what breakpoints `k` and `k + 1` cut out of the source. -/
theorem WellFormed.slice?_breakpoints {t : AnnotatedText} (h : t.WellFormed) {k : Nat} {span : Span}
    (hk : t.spans[k]? = some span) :
    ∃ low high, t.breakpoints[k]? = some low ∧ t.breakpoints[k + 1]? = some high ∧
      Text.slice? t.sourceText low.source high.source = some span.raw := by
  obtain ⟨hlt, hget⟩ := List.getElem?_eq_some_iff.mp hk
  have htake : t.spans.take (k + 1) = t.spans.take k ++ [span] := by
    rw [List.take_add_one, hk, Option.toList_some]
  have hplaced : t.Placed span (.after (t.spans.take k)) (.after (t.spans.take (k + 1))) := by
    refine ⟨t.spans.take k, t.spans.drop (k + 1), ?_, rfl, by rw [htake]⟩
    rw [← hget, List.cons_getElem_drop_succ, List.take_append_drop]
  exact ⟨_, _, h.getElem?_breakpoints (Nat.le_of_lt hlt), h.getElem?_breakpoints hlt,
    hplaced.slice?_sourceText⟩

end AnnotatedText

namespace Extractor

open Extract AnnotatedText

variable {x : Extractor} {source : String} {origin : Nat} {s : State}

/-- Where the end is reached, what was recorded makes up the source. -/
theorem Reaches.exists_calls (h : x.Reaches source.toList origin s) (hrest : s.rest = []) :
    ∃ calls, s.builder.build = ofCalls origin calls ∧
      String.join (calls.map Span.raw) = source := by
  obtain ⟨calls, news, hrecords⟩ := h.records
  refine ⟨calls, ?_, ?_⟩
  · rw [hrecords.builder_eq]
    rfl
  · -- at the end nothing is unread, so that the calls were given all of the source
    have hsource : source.toList = Span.source calls ++ s.rest := hrecords.rest_eq
    rw [Span.join_raw, ← List.append_nil (Span.source calls), ← hrest, ← hsource,
      String.ofList_toList]

/-- The reading position stands between two characters. -/
theorem Reaches.isValid_position (h : x.Reaches source.toList origin s) :
    (String.Pos.Raw.mk s.position).IsValid source := by
  obtain ⟨front, hsource, hposition⟩ := h.exists_append
  have hdrop := Text.dropBytes?_append front s.rest
  rw [← hsource, hposition] at hdrop
  exact Text.isValid_of_dropBytes? hdrop

/-- An extraction that is lenient or does not stall gives what was recorded at the end. -/
theorem exists_result_eq_ok
    (h : x.options.strict = false ∨ ∀ s, x.Reaches source.toList origin s → ¬ x.Stalls s) :
    ∃ t, (x.extract source origin).result = .ok t := by
  rcases x.run_cases source.toList origin with ⟨last, -, -, hrun⟩ | ⟨s, hs, hstalls, hstrict, -⟩
  · refine ⟨last.builder.build, ?_⟩
    rw [extract, hrun]
  · -- only a strict run ends early, and only at a stall
    rcases h with hlenient | hmoves
    · rw [hlenient] at hstrict
      cases hstrict
    · exact absurd hstalls (hmoves s hs)

/-- A result was recorded by calls that were given the source, piece by piece. -/
theorem exists_calls_of_result_eq_ok {t : AnnotatedText}
    (h : (x.extract source origin).result = .ok t) :
    ∃ calls, t = ofCalls origin calls ∧ String.join (calls.map Span.raw) = source := by
  rcases x.run_cases source.toList origin with ⟨last, hlast, hrest, hrun⟩ | ⟨s, -, -, -, hrun⟩
  · rw [extract, hrun] at h
    obtain rfl := Except.ok.inj h
    exact hlast.exists_calls hrest
  · rw [extract, hrun] at h
    cases h

/-- An extraction that is lenient or does not stall has a result.  The spans of a result are not
    empty, text does not follow text in them, put together they are the source, and what they
    contribute is the plain text; breakpoint `k` stands after the first `k` of them, and each is
    what the breakpoints around it cut out of the source.  Between any two iterations, what is
    recorded and what is unread make up the source, and they meet between two characters. -/
theorem extract_tiles (x : Extractor) (source : String) (origin : Nat) :
    ((x.options.strict = false ∨ ∀ s, x.Reaches source.toList origin s → ¬ x.Stalls s) →
      ∃ t, (x.extract source origin).result = .ok t) ∧
    (∀ t, (x.extract source origin).result = .ok t →
      (∀ span ∈ t.spans, span.raw ≠ "") ∧
      t.spans.IsChain (fun first second => ¬ (first.isText = true ∧ second.isText = true)) ∧
      String.join (t.spans.map Span.raw) = source ∧
      t.plain = String.join (t.spans.map Span.plain) ∧
      t.breakpoints.length = t.spans.length + 1 ∧
      (∀ k ≤ t.spans.length, t.breakpoints[k]? = some (.after (t.spans.take k))) ∧
      (∀ k span, t.spans[k]? = some span →
        ∃ low high, t.breakpoints[k]? = some low ∧ t.breakpoints[k + 1]? = some high ∧
          Text.slice? source low.source high.source = some span.raw)) ∧
    (∀ s, x.Reaches source.toList origin s →
      s.builder.sourceLength + Text.byteLength s.rest = source.utf8ByteSize ∧
      Text.dropBytes? source.toList s.builder.sourceLength = some s.rest ∧
      (String.Pos.Raw.mk s.position).IsValid source) := by
  refine ⟨exists_result_eq_ok, ?_, ?_⟩
  · intro t ht
    obtain ⟨calls, rfl, hcalls⟩ := exists_calls_of_result_eq_ok ht
    have hwell := wellFormed_ofCalls origin calls
    have hsource : (ofCalls origin calls).sourceText = source :=
      (sourceText_ofCalls origin calls).trans hcalls
    refine ⟨hwell.raw_ne_empty, hwell.apart, hsource, hwell.plain_eq, hwell.length_breakpoints,
      fun k hk => hwell.getElem?_breakpoints hk, ?_⟩
    intro k span hk
    rw [← hsource]
    exact hwell.slice?_breakpoints hk
  · intro s hs
    -- what has been read and what is unread make up the source
    obtain ⟨front, hsource, hposition⟩ := hs.exists_append
    have hlength : s.builder.sourceLength = Text.byteLength front := hposition.symm
    refine ⟨?_, ?_, hs.isValid_position⟩
    · rw [hlength, ← Text.byteLength_append, ← hsource, Text.byteLength_toList]
    · rw [hlength, hsource, Text.dropBytes?_append]

/-- An accent, a placeholder and a backslash that is skipped. -/
theorem extract_tiles_lenient :
    ∃ x source t, x = (⟨.builtin, { strict := false }⟩ : Extractor) ∧
      source = "Caf\\'\x7be\x7d \\cite\x7ba\x7d\\" ∧ (x.extract source 7).result = .ok t ∧
      t.spans = [.text "Caf", .markup "\\'\x7be\x7d" "\u00e9", .markup " " " ",
        .markup "\\cite\x7ba\x7d" "Dummy0", .markup "\\" ""] ∧
      String.join (t.spans.map Span.raw) = source := by
  obtain ⟨hok, htiles, -⟩ :=
    extract_tiles ⟨.builtin, { strict := false }⟩ "Caf\\'\x7be\x7d \\cite\x7ba\x7d\\" 7
  obtain ⟨t, ht⟩ := hok (.inl rfl)
  refine ⟨_, _, t, rfl, rfl, ht, ?_, (htiles t ht).2.2.1⟩
  have hspans : (Extractor.extract ⟨.builtin, { strict := false }⟩
      "Caf\\'\x7be\x7d \\cite\x7ba\x7d\\" 7).result.toOption.map AnnotatedText.spans =
        some [.text "Caf", .markup "\\'\x7be\x7d" "\u00e9", .markup " " " ",
          .markup "\\cite\x7ba\x7d" "Dummy0", .markup "\\" ""] := by decide +kernel
  rw [ht] at hspans
  exact Option.some.inj hspans

end Extractor

end ProseLens
