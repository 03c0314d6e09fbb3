import PhraseLedger.Session.Command
import Mathlib.Tactic.SplitIfs

/-!
# Lines and commands

A line is a command exactly if it is the spelling of this command, so no two commands
share a line and the reader of commands accepts nothing else.

Main definitions:

- Definition {lit}`Command.spelling`: the line of a command.
- Definition {lit}`Command.IsLine`: the form of the lines that are commands.

Main results:

- Theorem {lit}`Command.parse_eq_ok_iff`: the line that is read as a command.
- Theorem {lit}`Command.exists_parse_iff`: the lines that are read as commands.
-/

namespace PhraseLedger

namespace Command

/-- The line of a command. -/
def spelling : Command → Text
  | .add phrase => 65 :: Text.space :: phrase
  | .remove phrase => 68 :: Text.space :: phrase
  | .query document => 81 :: Text.space :: document
  | .flush => [70]

/-- A payload stands behind a space. -/
theorem payload_eq_ok {letter : Char} {rest text : Text}
    (hpayload : payload letter rest = .ok text) : rest = Text.space :: text := by
  cases rest with
  | nil => simp [payload] at hpayload
  | cons byte rest =>
      rw [payload] at hpayload
      split_ifs at hpayload with hspace
      rw [hspace, Except.ok.inj hpayload]

/-- A command with a payload has the payload behind a space. -/
theorem map_payload_eq_ok {letter : Char} {rest : Text} {make : Text → Command}
    {command : Command} (hmap : (payload letter rest).map make = .ok command) :
    ∃ text, rest = Text.space :: text ∧ command = make text := by
  cases hpayload : payload letter rest with
  | error fault =>
      rw [hpayload] at hmap
      cases hmap
  | ok text =>
      rw [hpayload] at hmap
      exact ⟨text, payload_eq_ok hpayload, (Except.ok.inj hmap).symm⟩

/-- The line of a command is read as this command. -/
theorem parse_spelling (command : Command) : parse command.spelling = .ok command := by
  cases command <;> rfl

/-- A line is read as a command exactly if it is the line of this command. -/
theorem parse_eq_ok_iff (line : Text) (command : Command) :
    parse line = .ok command ↔ line = command.spelling := by
  constructor
  · intro hparse
    cases line with
    | nil => simp [parse] at hparse
    | cons letter rest =>
        rw [parse] at hparse
        split_ifs at hparse with hflush hempty hadd hremove hquery
        · rw [← Except.ok.inj hparse, hflush, List.isEmpty_iff.mp hempty, spelling]
        · rcases map_payload_eq_ok hparse with ⟨text, hrest, hcommand⟩
          rw [hcommand, hadd, hrest, spelling]
        · rcases map_payload_eq_ok hparse with ⟨text, hrest, hcommand⟩
          rw [hcommand, hremove, hrest, spelling]
        · rcases map_payload_eq_ok hparse with ⟨text, hrest, hcommand⟩
          rw [hcommand, hquery, hrest, spelling]
  · intro hline
    rw [hline, parse_spelling]

/-! ## The form of commands -/

/-- Whether a line is {lit}`F`, or begins with {lit}`A`, {lit}`D` or {lit}`Q` and a space. -/
def IsLine (line : Text) : Prop :=
  line = Text.ofString "F" ∨ Text.ofString "A " <+: line ∨ Text.ofString "D " <+: line ∨
    Text.ofString "Q " <+: line

instance (line : Text) : Decidable (IsLine line) :=
  inferInstanceAs (Decidable (_ ∨ _ ∨ _ ∨ _))

/-- The lines that are read as commands. -/
theorem exists_parse_iff (line : Text) :
    (∃ command, parse line = .ok command) ↔ IsLine line := by
  simp only [parse_eq_ok_iff]
  constructor
  · rintro ⟨command, rfl⟩
    cases command with
    | add phrase => exact .inr (.inl ⟨phrase, rfl⟩)
    | remove phrase => exact .inr (.inr (.inl ⟨phrase, rfl⟩))
    | query document => exact .inr (.inr (.inr ⟨document, rfl⟩))
    | flush => exact .inl rfl
  · rintro (hflush | ⟨phrase, hadd⟩ | ⟨phrase, hremove⟩ | ⟨document, hquery⟩)
    · exact ⟨.flush, hflush⟩
    · exact ⟨.add phrase, hadd.symm⟩
    · exact ⟨.remove phrase, hremove.symm⟩
    · exact ⟨.query document, hquery.symm⟩

/-- A line that is no command has a fault. -/
theorem exists_fault {line : Text} (hline : ¬IsLine line) :
    ∃ fault, parse line = .error fault := by
  cases hparse : parse line with
  | error fault => exact ⟨fault, rfl⟩
  | ok command => exact absurd ((exists_parse_iff line).mp ⟨command, hparse⟩) hline

end Command

end PhraseLedger
