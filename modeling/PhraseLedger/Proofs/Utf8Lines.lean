import PhraseLedger.Text.Utf8
import PhraseLedger.Proofs.Lines
import Mathlib.Tactic.SplitIfs

/-!
# Lines of UTF-8

No character but the ASCII ones contains an ASCII byte, so a text can be cut at these without
cutting a character.  In particular a text is UTF-8 exactly if its lines are, with their ends
or without.

Main results:

- Theorem {lit}`Text.isUtf8_append_ascii`: a text that is cut at an ASCII byte.
- Theorem {lit}`Text.isUtf8_iff_lines`: a text against its lines.
- Theorem {lit}`Text.isUtf8_trimLineEnd`: a line against the line without its end.
-/

namespace PhraseLedger

namespace Utf8

/-- Whether only continuation bytes are awaited inside of a character. -/
def Progress.Sound : Progress → Prop
  | .complete => True
  | .awaiting low _ _ => 0x80 ≤ low

theorem lead_sound {byte : UInt8} {next : Progress} (hlead : lead byte = some next) :
    next.Sound := by
  unfold lead at hlead
  split_ifs at hlead <;> rw [← Option.some.inj hlead] <;> simp [Progress.Sound]

/-- Whatever byte comes next, only continuation bytes are awaited behind it. -/
theorem step_sound {progress next : Progress} {byte : UInt8}
    (hstep : step progress byte = some next) : next.Sound := by
  cases progress with
  | complete => exact lead_sound hstep
  | awaiting low high more =>
      simp only [step] at hstep
      split_ifs at hstep with hrange
      cases more <;> rw [← Option.some.inj hstep] <;> simp [Progress.Sound]

theorem foldlM_step_sound {progress next : Progress} (hsound : progress.Sound) {text : Text}
    (hfold : text.foldlM step progress = some next) : next.Sound := by
  induction text generalizing progress with
  | nil =>
      rw [← Option.some.inj hfold]
      exact hsound
  | cons byte rest ih =>
      rw [List.foldlM_cons] at hfold
      cases hstep : step progress byte with
      | none =>
          rw [hstep] at hfold
          cases hfold
      | some between =>
          rw [hstep] at hfold
          exact ih (step_sound hstep) hfold

/-- An ASCII byte comes between two characters only. -/
theorem step_ascii {progress : Progress} (hsound : progress.Sound) {byte : UInt8}
    (hascii : byte < 0x80) :
    step progress byte = if progress = .complete then some .complete else none := by
  cases progress with
  | complete => simp [step, lead, hascii]
  | awaiting low high more =>
      have hrange : ¬(low ≤ byte ∧ byte ≤ high) := by
        intro hrange
        exact absurd (UInt8.le_trans hsound hrange.1) (UInt8.not_le.mpr hascii)
      simp [step, hrange]

end Utf8

namespace Text

/-- A text that is cut at an ASCII byte is UTF-8 exactly if both parts are. -/
theorem isUtf8_append_ascii (front back : Text) {byte : UInt8} (hascii : byte < 0x80) :
    isUtf8 (front ++ byte :: back) = (isUtf8 front && isUtf8 back) := by
  rw [isUtf8, isUtf8, isUtf8, List.foldlM_append]
  cases hfront : front.foldlM Utf8.step .complete with
  | none => rfl
  | some progress =>
      have hstart : Utf8.Progress.complete.Sound := trivial
      have hsound := Utf8.foldlM_step_sound hstart hfront
      simp only [Option.bind_eq_bind, Option.bind_some, List.foldlM_cons,
        Utf8.step_ascii hsound hascii]
      by_cases hcomplete : progress = .complete <;> simp [hcomplete]

/-- ASCII bytes are UTF-8. -/
theorem isUtf8_of_ascii {text : Text} (hascii : ∀ byte ∈ text, byte < 0x80) :
    isUtf8 text = true := by
  induction text with
  | nil => rfl
  | cons byte rest ih =>
      rw [List.forall_mem_cons] at hascii
      have hcut := isUtf8_append_ascii [] rest hascii.1
      rw [List.nil_append] at hcut
      rw [hcut, ih hascii.2]
      rfl

/-- A text without an ASCII byte at its end is UTF-8 exactly if the text is. -/
theorem isUtf8_chop {byte : UInt8} (hascii : byte < 0x80) (text : Text) :
    isUtf8 (chop byte text) = isUtf8 text := by
  rw [chop]
  split
  · rename_i hlast
    rcases List.getLast?_eq_some_iff.mp hlast with ⟨front, rfl⟩
    rw [List.dropLast_concat, isUtf8_append_ascii _ _ hascii]
    simp [isUtf8]
  · rfl

/-- The end of a line does not decide whether it is UTF-8. -/
theorem isUtf8_trimLineEnd (line : Text) : isUtf8 line.trimLineEnd = isUtf8 line := by
  rw [trimLineEnd, isUtf8_chop (by decide), isUtf8_chop (by decide)]

/-- A text is UTF-8 exactly if its lines are. -/
theorem isUtf8_iff_lines (text : Text) :
    text.isUtf8 = true ↔ ∀ line ∈ text.lines, line.isUtf8 = true := by
  induction text using pieceInduction lineFeed with
  | last piece hfree =>
      rw [lines_piece hfree]
      split
      · rename_i hempty
        simp [hempty, isUtf8]
      · simp
  | next piece rest hfree ih =>
      rw [lines_append_lineFeed hfree, isUtf8_append_ascii _ _ (by decide), List.forall_mem_cons,
        isUtf8_append_ascii _ _ (by decide), ← ih]
      simp [isUtf8]

theorem isUtf8_iff_bareLines (text : Text) :
    text.isUtf8 = true ↔ ∀ line ∈ text.bareLines, line.isUtf8 = true := by
  rw [isUtf8_iff_lines, bareLines_eq_map]
  simp [isUtf8_trimLineEnd]

end Text

end PhraseLedger
