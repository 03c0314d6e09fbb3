import PhraseLedger.Text.GraphemeExtend
import PhraseLedger.Text.Unprintable

/-!
# Quoted characters

A character is shown between single quotes.  The single quote, the backslash and the
common control characters are written with a backslash and a letter, and characters
that cannot be told from their surroundings by looking at them are written with their
code point in braces.

Main definitions:

- Definition {lit}`CharQuote.quoted`: a character between single quotes.
-/

namespace PhraseLedger

namespace CharQuote

/-- A code point in lower-case hexadecimal digits. -/
def hexText (code : Nat) : String :=
  String.ofList (Nat.toDigits 16 code)

/-- A character written with its code point in braces. -/
def codeEscape (c : Char) : String :=
  "\\u\x7b" ++ hexText c.toNat ++ "\x7d"

/-- Whether a character extends a grapheme but has a place of its own on the line, as
the two halfwidth sound marks of Katakana do. -/
def isHalfwidthMark (c : Char) : Bool :=
  c.toNat == 0xFF9E || c.toNat == 0xFF9F

/-- Whether a character is written with its code point: it is drawn onto the character
in front of it, or has no printed form. -/
def isHidden (c : Char) : Bool :=
  (GraphemeExtend.contains c && !isHalfwidthMark c) || Unprintable.contains c

/-- A character as it is shown between single quotes. -/
def escaped (c : Char) : String :=
  if c = Char.ofNat 0 then "\\0"
  else if c = '\t' then "\\t"
  else if c = '\r' then "\\r"
  else if c = '\n' then "\\n"
  else if c = '\'' then "\\'"
  else if c = '\\' then "\\\\"
  else if isHidden c then codeEscape c
  else c.toString

/-- A character between single quotes. -/
def quoted (c : Char) : String :=
  "'" ++ escaped c ++ "'"

end CharQuote

end PhraseLedger
