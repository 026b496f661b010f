import ProseLens.Proofs.Text.Encoding

/-!
# Texts in order of their bytes

Texts are ordered character by character.  Their bytes are in the same order: of two characters the
smaller one has the smaller byte where their encodings first differ, since the first byte tells how
many there are and the bits of the character come in order from the highest one on.
-/

namespace ProseLens.Text

/-- Of two characters the smaller one has the smaller bytes, whatever comes behind them. -/
theorem utf8EncodeChar_append_lt {c d : Char} (h : c < d) (cs ds : List UInt8) :
    String.utf8EncodeChar c ++ cs < String.utf8EncodeChar d ++ ds := by
  have hval : c.val.toNat < d.val.toNat := h
  have hmax : d.val.toNat < 0x110000 := by
    rcases d.valid with hlow | hhigh
    · exact Nat.lt_trans hlow (by decide)
    · exact hhigh.2
  -- all bytes behind the first one hold six bits of what is left
  have hthird (v : Nat) : v / 4096 = v / 64 / 64 := (Nat.div_div_eq_div_mul v 64 64).symm
  have hfourth (v : Nat) : v / 262144 = v / 64 / 64 / 64 := by
    rw [← hthird, Nat.div_div_eq_div_mul]
  simp only [String.utf8EncodeChar, hthird, hfourth]
  repeat' split
  all_goals
    simp only [List.cons_append, List.nil_append, List.cons_lt_cons_iff, UInt8.lt_iff_toNat_lt,
      ← UInt8.toNat_inj, UInt8.toNat_ofNat']
    omega

/-- The bytes of texts are in the order of the texts. -/
theorem encode_lt {cs ds : List Char} (h : cs < ds) : encode cs < encode ds := by
  induction h with
  | @nil d ds =>
    have hne : encode (d :: ds) ≠ [] := by
      have := d.utf8Size_pos
      rw [← List.length_pos_iff, length_encode, byteLength_cons]
      omega
    obtain ⟨b, bytes, hbytes⟩ := List.exists_cons_of_ne_nil hne
    rw [hbytes]
    exact .nil
  -- the first characters differ, and their bytes do so in the same direction
  | rel h => exact utf8EncodeChar_append_lt h _ _
  | cons _ ih => exact List.append_left_lt ih

/-- Texts are compared like their bytes. -/
theorem data_toUTF8_lt {s t : String} (h : compare s t = .lt) :
    s.toUTF8.data.toList < t.toUTF8.data.toList := by
  have hlt : s < t := compareOfLessAndEq_eq_lt.mp h
  rw [data_toUTF8, data_toUTF8]
  exact encode_lt hlt

end ProseLens.Text
