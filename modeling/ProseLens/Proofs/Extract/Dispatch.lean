import ProseLens.Proofs.Extract.Act
import ProseLens.Proofs.Extract.Leads
import ProseLens.Proofs.Signature.Prototype

/-!
# Which construct begins where

In a mode that reads constructs the character at the reading position decides which one begins, a
control sequence is read as a whole, and the name of an environment in braces after its control
sequence.
-/

namespace ProseLens

namespace Extract

section Tags

variable (front name after : List Char)

/-- A tag in braces is what stands in front of the rest. -/
theorem tag_append :
    front ++ '{' :: (name ++ '}' :: after) = (front ++ '{' :: (name ++ ['}'])) ++ after := by
  simp

private theorem length_tag :
    (front ++ '{' :: (name ++ ['}'])).length = front.length + (name.length + 2) := by
  simp

/-- A tag is its control sequence and its name in braces. -/
theorem take_tag : (front ++ '{' :: (name ++ '}' :: after)).take
    (front.length + (name.length + 2)) = front ++ '{' :: (name ++ ['}']) := by
  rw [tag_append, List.take_left' (length_tag front name)]

/-- What follows a tag in braces is left when the tag is dropped. -/
theorem drop_tag : (front ++ '{' :: (name ++ '}' :: after)).drop
    (front.length + (name.length + 2)) = after := by
  rw [tag_append, List.drop_left' (length_tag front name)]

/-- The tag that opens an environment is what its signatures are filed under. -/
theorem ofList_take_opening :
    String.ofList (("\\begin".toList ++ '{' :: (name ++ '}' :: after)).take
      ("\\begin".toList.length + (name.length + 2))) =
        Signature.Environment.openingName (String.ofList name) := by
  rw [take_tag, ← Signature.Environment.toList_openingName, String.ofList_toList]

end Tags

/-- A tag in braces is read with its name, up to the first closing brace. -/
theorem EnvironmentTag.read_braced (front : List Char) {name : List Char} (after : List Char)
    (hname : '}' ∉ name) :
    EnvironmentTag.read (front ++ '{' :: (name ++ '}' :: after)) front.length none =
      ⟨front.length, name.length + 2, name, .braced name⟩ := by
  have hgroup : (front ++ '{' :: (name ++ '}' :: after)).drop front.length =
      '{' :: (name ++ '}' :: after) := List.drop_left
  have hname' : (front ++ '{' :: (name ++ '}' :: after)).drop (front.length + 1) =
      name ++ '}' :: after := by
    rw [← List.drop_drop, hgroup]
    rfl
  simp only [read, hgroup, hname', Token.group?_append hname, Option.getD_some,
    Nat.add_sub_cancel, List.take_left]

/-- A control sequence that begins with `\start` opens the environment named by the rest of it. -/
theorem Control.ofToken_start (name : List Char) :
    ofToken ("\\start".toList ++ name) = .opening (some name) := by
  unfold ofToken
  rw [Text.stripFront?_append]

end Extract

namespace Extractor

open Extract

section Construct

variable {x : Extractor} {s : State}

/-- In a mode that reads constructs the character decides. -/
theorem construct_of_free (h : s.mode.isOpaque = false) (c : Char) :
    x.construct s c =
      match c with
      | '\\' => x.backslash s
      | '{' => openBrace s
      | '}' => closeBrace s
      | '$' => x.dollar s
      | '%' => percent s
      | ' ' | '&' | '~' | '\n' | '\r' | '\t' => blank s c
      | '\x60' | '\x27' | '\x22' => quotationMark s c
      | c => x.otherCharacter s c := by
  unfold construct
  split
  -- the first two cases are the opaque modes
  · next hmode => simp [hmode, Mode.isOpaque] at h
  · next hmode => simp [hmode, Mode.isOpaque] at h
  · rfl

/-- A blank is read as a run of blanks. -/
theorem construct_blank (h : s.mode.isOpaque = false) {c : Char} (hc : Token.isBlank c = true) :
    x.construct s c = blank s c := by
  have hcases : c = ' ' ∨ c = '\t' ∨ c = '\n' ∨ c = '\r' := by
    simpa [Token.isBlank, Token.isLineEnd, or_assoc] using hc
  rcases hcases with rfl | rfl | rfl | rfl
  all_goals exact construct_of_free h _

/-- Characters other than those that begin a construct and the quotation marks. -/
theorem construct_other (h : s.mode.isOpaque = false) {c : Char}
    (hc : c ∉ Text.specials ++ ['\x60', '\x27', '\x22']) :
    x.construct s c = x.otherCharacter s c := by
  rw [construct_of_free h]
  split
  all_goals first | rfl | exact absurd hc (by decide)

/-- A control sequence is read as a whole. -/
theorem construct_control (h : s.mode.isOpaque = false) {n : Nat}
    (hcontrol : Token.control? s.rest = some n) :
    x.construct s '\\' = x.control s (s.rest.take n) := by
  have hbackslash : x.construct s '\\' = x.backslash s := construct_of_free h '\\'
  rw [hbackslash, backslash, hcontrol]

/-- A step at a control sequence. -/
theorem step_control (hfree : s.modes.top.isOpaque = false) {n : Nat}
    (hcontrol : Token.control? s.rest = some n) :
    x.step s = settle (x.control (begun s) (s.rest.take n)) := by
  obtain ⟨cs, hcs⟩ : ∃ cs, s.rest = '\\' :: cs := by
    unfold Token.control? at hcontrol
    split at hcontrol
    · next heq => exact ⟨_, heq⟩
    · cases hcontrol
  rw [step_eq_settle hcs, construct_control (s := begun s) hfree hcontrol, rest_begun]

/-- A step at the opening of an environment with its name in braces. -/
theorem step_opening (hfree : s.modes.top.isOpaque = false) {name after : List Char}
    (hname : '}' ∉ name) (hrest : s.rest = "\\begin".toList ++ '{' :: (name ++ '}' :: after)) :
    x.step s = settle (x.openEnvironment (begun s)
      ⟨"\\begin".toList.length, name.length + 2, name, .braced name⟩) := by
  -- the control sequence ends at the brace, and the tag at the first closing one
  have hcontrol : Token.control? s.rest = some "\\begin".toList.length := by
    rw [hrest]
    exact Token.control?_word "begin".toList (by decide) (by decide) (by simp; decide)
  have htake : s.rest.take "\\begin".toList.length = "\\begin".toList := by
    rw [hrest, List.take_left]
  have htoken : Control.ofToken "\\begin".toList = .opening none := rfl
  have htag : EnvironmentTag.read (begun s).rest "\\begin".toList.length none =
      ⟨"\\begin".toList.length, name.length + 2, name, .braced name⟩ := by
    rw [rest_begun, hrest]
    exact EnvironmentTag.read_braced "\\begin".toList after hname
  rw [step_control hfree hcontrol, htake, control, htoken]
  dsimp only
  rw [htag]

end Construct

end Extractor

end ProseLens
