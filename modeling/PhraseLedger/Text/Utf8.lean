import PhraseLedger.Text.Words

/-!
# Well-formed UTF-8

The bytes that may follow each other in a well-formed text are tracked by a small
automaton: between two characters nothing is awaited, inside a character the next
byte must lie in a given range and a number of continuation bytes follow it.

Main definitions:

- Definition {lit}`Text.isUtf8`: whether the bytes are well-formed UTF-8.
- Definition {lit}`Text.isBoundary`: whether a position lies between two characters.
- Definition {lit}`Text.firstChar`: the first character of a well-formed text.
-/

namespace PhraseLedger

namespace Utf8

/-- What has been read of the current character. -/
inductive Progress where
  /-- The last character is complete. -/
  | complete
  /-- The next byte lies between `low` and `high`, and `more` continuation bytes
  follow it. -/
  | awaiting (low high : UInt8) (more : Nat)
deriving DecidableEq, Repr

/-- What is awaited after the first byte of a character, or nothing if no character
starts with that byte. -/
def lead (byte : UInt8) : Option Progress :=
  if byte < 0x80 then some .complete
  else if byte < 0xC2 then none
  else if byte < 0xE0 then some (.awaiting 0x80 0xBF 0)
  else if byte = 0xE0 then some (.awaiting 0xA0 0xBF 1)
  else if byte = 0xED then some (.awaiting 0x80 0x9F 1)
  else if byte < 0xF0 then some (.awaiting 0x80 0xBF 1)
  else if byte = 0xF0 then some (.awaiting 0x90 0xBF 2)
  else if byte < 0xF4 then some (.awaiting 0x80 0xBF 2)
  else if byte = 0xF4 then some (.awaiting 0x80 0x8F 2)
  else none

/-- Reads one byte, or nothing if the byte cannot come next. -/
def step (progress : Progress) (byte : UInt8) : Option Progress :=
  match progress with
  | .complete => lead byte
  | .awaiting low high more =>
    if low ≤ byte ∧ byte ≤ high then
      match more with
      | 0 => some .complete
      | more + 1 => some (.awaiting 0x80 0xBF more)
    else none

/-- Whether a byte continues a character that an earlier byte started. -/
def isContinuation (byte : UInt8) : Bool :=
  0x80 ≤ byte && byte < 0xC0

/-- The payload bits of a continuation byte. -/
def tailBits (byte : UInt8) : Nat :=
  byte.toNat % 0x40

end Utf8

namespace Text

/-- Whether the bytes are well-formed UTF-8 that ends with a complete character. -/
def isUtf8 (text : Text) : Bool :=
  text.foldlM Utf8.step .complete == some .complete

/-- Whether a position of a well-formed text lies between two characters or at an
end of the text. -/
def isBoundary (text : Text) (pos : Nat) : Bool :=
  match text[pos]? with
  | some byte => pos == 0 || !Utf8.isContinuation byte
  | none => pos == text.length

/-- The first character of a well-formed text; an empty text counts as starting with
the null character. -/
def firstChar : Text → Char
  | [] => Char.ofNat 0
  | a :: rest =>
    if a < 0x80 then Char.ofNat a.toNat
    else
      match rest with
      | [] => Char.ofNat 0
      | b :: rest =>
        if a < 0xE0 then Char.ofNat (a.toNat % 0x20 * 0x40 + Utf8.tailBits b)
        else
          match rest with
          | [] => Char.ofNat 0
          | c :: rest =>
            if a < 0xF0 then
              Char.ofNat (a.toNat % 0x10 * 0x1000 + Utf8.tailBits b * 0x40 + Utf8.tailBits c)
            else
              match rest with
              | [] => Char.ofNat 0
              | d :: _ =>
                Char.ofNat (a.toNat % 0x08 * 0x40000 + Utf8.tailBits b * 0x1000
                  + Utf8.tailBits c * 0x40 + Utf8.tailBits d)

end Text

end PhraseLedger
