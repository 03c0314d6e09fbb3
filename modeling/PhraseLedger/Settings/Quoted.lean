import PhraseLedger.Error
import PhraseLedger.Text.Words

/-!
# Quoted strings

The strings of a settings text stand in double quotes.  A backslash starts an escape:
a single letter for a common character, or {lit}`u` and four hexadecimal digits for a
unit of UTF-16.  A character outside the basic plane takes two such units.

Main definitions:

- Definition {lit}`Quoted.read`: the rest of a string behind its opening quote.
- Definition {lit}`Quoted.hexUnit?`: the unit that four hexadecimal digits stand for.
-/

namespace PhraseLedger

namespace Quoted

/-- The double quote. -/
def quote : UInt8 := 34

/-- The backslash. -/
def backslash : UInt8 := 92

/-- The letter behind a backslash that starts a unit in hexadecimal digits. -/
def unitLetter : UInt8 := 117

/-- The value of a hexadecimal digit of either case. -/
def hexDigit? (byte : UInt8) : Option Nat :=
  if 48 ≤ byte ∧ byte ≤ 57 then some (byte.toNat - 48)
  else if 65 ≤ byte ∧ byte ≤ 70 then some (byte.toNat - 55)
  else if 97 ≤ byte ∧ byte ≤ 102 then some (byte.toNat - 87)
  else none

/-- The unit that four hexadecimal digits stand for. -/
def hexUnit? (a b c d : UInt8) : Option Nat :=
  match hexDigit? a, hexDigit? b, hexDigit? c, hexDigit? d with
  | some a, some b, some c, some d => some (((a * 16 + b) * 16 + c) * 16 + d)
  | _, _, _, _ => none

/-- Whether a unit is the first of a pair. -/
def isHighSurrogate (unit : Nat) : Bool :=
  0xD800 ≤ unit && unit ≤ 0xDBFF

/-- Whether a unit is the second of a pair. -/
def isLowSurrogate (unit : Nat) : Bool :=
  0xDC00 ≤ unit && unit ≤ 0xDFFF

/-- The character that a pair of units stands for. -/
def ofPair (high low : Nat) : Char :=
  Char.ofNat ((high - 0xD800) * 0x400 + (low - 0xDC00) + 0x10000)

/-- The byte that a single letter behind a backslash stands for. -/
def simpleEscape? (letter : UInt8) : Option UInt8 :=
  if letter = quote ∨ letter = backslash ∨ letter = 47 then some letter
  else if letter = 98 then some 8
  else if letter = 102 then some 12
  else if letter = 110 then some 10
  else if letter = 114 then some 13
  else if letter = 116 then some 9
  else none

/-- Puts bytes in front of a string that was read. -/
def prepend (bytes : Text) (found : Except SettingsFault (Text × Text)) :
    Except SettingsFault (Text × Text) :=
  found.map fun read => (bytes ++ read.1, read.2)

/-- The rest of a string behind its opening quote, with its escapes resolved, and the
text behind its closing quote.  Bytes below the space must be escaped, and surrogates
must come in pairs. -/
def read : Text → Except SettingsFault (Text × Text)
  | [] => .error .truncated
  | byte :: rest =>
    if byte = quote then .ok ([], rest)
    else if byte < 32 then .error .malformed
    else if byte ≠ backslash then prepend [byte] (read rest)
    else
      match rest with
      | [] => .error .truncated
      | letter :: rest =>
        if letter ≠ unitLetter then
          match simpleEscape? letter with
          | none => .error .malformed
          | some byte => prepend [byte] (read rest)
        else
          match rest with
          | a :: b :: c :: d :: rest =>
            match hexUnit? a b c d with
            | none => .error .malformed
            | some unit =>
              if isLowSurrogate unit then .error .malformed
              else if !isHighSurrogate unit then
                prepend (String.utf8EncodeChar (Char.ofNat unit)) (read rest)
              else
                match rest with
                | [] => .error .truncated
                | [mark] => if mark = backslash then .error .truncated else .error .malformed
                | mark :: letter :: rest =>
                  if mark ≠ backslash ∨ letter ≠ unitLetter then .error .malformed
                  else
                    match rest with
                    | a :: b :: c :: d :: rest =>
                      match hexUnit? a b c d with
                      | none => .error .malformed
                      | some low =>
                        if isLowSurrogate low then
                          prepend (String.utf8EncodeChar (ofPair unit low)) (read rest)
                        else .error .malformed
                    | _ => .error .truncated
          | _ => .error .truncated

end Quoted

end PhraseLedger
