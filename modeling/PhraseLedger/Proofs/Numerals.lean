import Mathlib.Data.Nat.Digits.Defs
import PhraseLedger.Proofs.Spellings
import PhraseLedger.Settings.Reader

/-!
# Natural numbers in settings texts

Of the numerals that the reader understands, it takes for natural numbers those that consist of
decimal digits alone, the first of which is a zero only if it is the only one, and that stand for
a number below the limit of a machine word.

Main definitions:

- Definition {lit}`Numeral.Spells`: the spellings of a natural number.

Main results:

- Theorem {lit}`Settings.spells_of_natural`: what the reader takes for a natural number.
- Theorem {lit}`Settings.natural_append`: every spelling is read, if nothing behind it goes on with
  the numeral.
-/

namespace PhraseLedger

namespace Numeral

/-- Whether a literal spells a natural number: decimal digits without a needless zero in front,
and a number below the limit. -/
structure Spells (literal : Text) (number : Nat) : Prop where
  digits : ∀ byte ∈ literal, 48 ≤ byte ∧ byte ≤ 57
  nonempty : literal ≠ []
  leadingZero : literal.head? = some 48 → literal = [48]
  number_eq : Nat.ofDigits 10 (literal.reverse.map fun byte => byte.toNat - 48) = number
  bound : number < UInt64.size

/-- Whether a text cannot go on with a numeral: it starts with neither a digit nor a point nor the
letter of an exponent. -/
def Stops (text : Text) : Prop :=
  ∀ byte ∈ text.head?, ¬isDigit byte = true ∧ byte ≠ 46 ∧ byte ≠ 69 ∧ byte ≠ 101

theorem isDigit_iff {byte : UInt8} : isDigit byte = true ↔ 48 ≤ byte ∧ byte ≤ 57 := by
  rw [isDigit, Bool.and_eq_true, decide_eq_true_iff, decide_eq_true_iff]

/-- The value of digits, from the last one on. -/
theorem value_eq_ofDigits (literal : Text) :
    value literal = Nat.ofDigits 10 (literal.reverse.map fun byte => byte.toNat - 48) := by
  rw [value, Nat.ofDigits_eq_foldr, List.foldr_map, List.foldr_reverse]
  congr 1
  funext number byte
  rw [digitValue, Nat.add_comm, Nat.mul_comm]
  rfl

variable {text literal rest : Text} {number : Nat}

theorem Spells.isDigit (h : Spells literal number) : ∀ byte ∈ literal, isDigit byte = true :=
  fun byte hbyte => isDigit_iff.mpr (h.digits byte hbyte)

theorem Spells.ascii (h : Spells literal number) : ∀ byte ∈ literal, byte < 0x80 := by
  intro byte hbyte
  exact UInt8.lt_of_le_of_lt (h.digits byte hbyte).2 (by decide)

theorem Spells.value_eq (h : Spells literal number) : value literal = number :=
  (value_eq_ofDigits literal).trans h.number_eq

/-! ## The parts of a numeral -/

theorem takeWhile_isDigit (hdigits : ∀ byte ∈ literal, isDigit byte = true)
    (hrest : ∀ byte ∈ rest.head?, ¬isDigit byte = true) :
    (literal ++ rest).takeWhile isDigit = literal ∧
      (literal ++ rest).dropWhile isDigit = rest := by
  rw [List.takeWhile_append_of_pos hdigits, List.dropWhile_append_of_pos hdigits]
  cases rest with
  | nil => exact ⟨List.append_nil literal, rfl⟩
  | cons byte rest =>
      have hbyte := hrest byte rfl
      rw [List.takeWhile_cons_of_neg hbyte, List.dropWhile_cons_of_neg hbyte, List.append_nil]
      exact ⟨rfl, rfl⟩

/-- Digits are read up to the first byte that is none. -/
theorem digits_append (hdigits : ∀ byte ∈ literal, isDigit byte = true) (hnonempty : literal ≠ [])
    (hrest : ∀ byte ∈ rest.head?, ¬isDigit byte = true) :
    digits (literal ++ rest) = .ok (literal, rest) := by
  rcases List.exists_cons_of_ne_nil hnonempty with ⟨first, tail, rfl⟩
  rcases takeWhile_isDigit hdigits hrest with ⟨htake, hdrop⟩
  rw [List.cons_append, digits, if_pos (hdigits first List.mem_cons_self), ← List.cons_append,
    htake, hdrop]

/-- The digits that are read stand at the front of the text, and there is at least one. -/
theorem digits_eq_ok (hread : digits text = .ok (literal, rest)) :
    text = literal ++ rest ∧ literal ≠ [] ∧ ∀ byte ∈ literal, isDigit byte = true := by
  rw [digits.eq_def] at hread
  split at hread
  · cases hread
  · rename_i first tail
    split_ifs at hread with hfirst
    obtain ⟨rfl, rfl⟩ := Prod.mk.inj (Except.ok.inj hread)
    refine ⟨List.takeWhile_append_dropWhile.symm, ?_, List.all_eq_true.mp List.all_takeWhile⟩
    rw [List.takeWhile_cons_of_pos hfirst]
    exact List.cons_ne_nil _ _

theorem integerPart_append (h : Spells literal number) (hrest : Stops rest) :
    integerPart (literal ++ rest) = .ok (literal, rest) := by
  rw [integerPart, digits_append h.isDigit h.nonempty fun byte hbyte => (hrest byte hbyte).1]
  refine if_neg ?_
  rintro ⟨hzero, hlength⟩
  rw [h.leadingZero hzero] at hlength
  exact absurd hlength (by decide)

theorem integerPart_eq_ok (hread : integerPart text = .ok (literal, rest)) :
    text = literal ++ rest ∧ literal ≠ [] ∧ (∀ byte ∈ literal, isDigit byte = true) ∧
      (literal.head? = some 48 → literal = [48]) := by
  rw [integerPart] at hread
  split at hread
  · cases hread
  · rename_i found behind hdigits
    split_ifs at hread with hzero
    obtain ⟨rfl, rfl⟩ := Prod.mk.inj (Except.ok.inj hread)
    rcases digits_eq_ok hdigits with ⟨htext, hnonempty, hall⟩
    refine ⟨htext, hnonempty, hall, fun hhead => ?_⟩
    cases found with
    | nil => exact absurd rfl hnonempty
    | cons first tail =>
        obtain rfl := Option.some.inj hhead
        cases tail with
        | nil => rfl
        | cons second tail => exact absurd ⟨rfl, by simp⟩ hzero

theorem fraction?_of_stops (hrest : Stops rest) : fraction? rest = .ok (none, rest) := by
  rw [fraction?.eq_def]
  split
  · exact absurd rfl (hrest 46 rfl).2.1
  · rfl

theorem fraction?_eq_none (hread : fraction? text = .ok (none, rest)) : rest = text := by
  rw [fraction?.eq_def] at hread
  split at hread
  · rcases map_eq_ok_iff.mp hread with ⟨found, -, hfound⟩
    cases hfound
  · exact (Prod.mk.inj (Except.ok.inj hread)).2.symm

theorem exponent?_of_stops (hrest : Stops rest) : exponent? rest = .ok (none, rest) := by
  rw [exponent?.eq_def]
  split
  · exact absurd rfl (hrest 69 rfl).2.2.1
  · exact absurd rfl (hrest 101 rfl).2.2.2
  · rfl

theorem exponent?_eq_none (hread : exponent? text = .ok (none, rest)) : rest = text := by
  rw [exponent?.eq_def] at hread
  split at hread
  iterate 2
    rcases map_eq_ok_iff.mp hread with ⟨found, -, hfound⟩
    cases hfound
  · exact (Prod.mk.inj (Except.ok.inj hread)).2.symm

/-- Only an integer part alone, without a sign and below the limit, is a natural number. -/
theorem ofParts_eq_natural_iff {negative : Bool} {integer : Text} {fraction : Option Text}
    {exponent : Option Int} :
    ofParts negative integer fraction exponent = .ok (.natural number) ↔
      negative = false ∧ fraction = none ∧ exponent = none ∧ value integer = number ∧
        number < UInt64.size := by
  have hmax : ∀ size : Nat, size ≤ Decimal.significandMax ↔ size < UInt64.size := fun size => by
    rw [Decimal.significandMax, Nat.le_sub_one_iff_lt (by decide)]
  have hplain : (fraction.isNone && exponent.isNone &&
      decide (value integer ≤ Decimal.significandMax)) = true ↔ fraction = none ∧ exponent = none ∧ value integer < UInt64.size := by
    rw [Bool.and_eq_true, Bool.and_eq_true, Option.isNone_iff_eq_none, Option.isNone_iff_eq_none,
      decide_eq_true_iff, hmax, and_assoc]
  simp only [ofParts]
  by_cases hparts : fraction = none ∧ exponent = none ∧ value integer < UInt64.size
  · rw [if_pos (hplain.mpr hparts)]
    rcases hparts with ⟨rfl, rfl, hbound⟩
    cases negative with
    | true => simp
    | false =>
        simp only [Bool.false_eq_true, if_false, Except.ok.injEq, Numeral.natural.injEq, true_and]
        exact ⟨fun hnumber => ⟨hnumber, hnumber ▸ hbound⟩, And.left⟩
  · -- Every other numeral is read for its size only.
    rw [if_neg (mt hplain.mp hparts)]
    refine iff_of_false ?_ fun h => hparts ⟨h.2.1, h.2.2.1, h.2.2.2.1 ▸ h.2.2.2.2⟩
    split_ifs <;> simp

/-! ## Natural numbers -/

/-- The reader takes a spelling for the natural number that it spells. -/
theorem Spells.readUnsigned (h : Spells literal number) (hrest : Stops rest) :
    readUnsigned false (literal ++ rest) = .ok (.natural number, rest) := by
  rw [Numeral.readUnsigned, integerPart_append h hrest]
  simp only [fraction?_of_stops hrest, exponent?_of_stops hrest]
  rw [ofParts_eq_natural_iff.mpr ⟨rfl, rfl, rfl, h.value_eq, h.bound⟩]
  rfl

/-- What the reader takes for a natural number is one of its spellings, without a sign. -/
theorem spells_of_readUnsigned {negative : Bool}
    (hread : Numeral.readUnsigned negative text = .ok (.natural number, rest)) :
    negative = false ∧ ∃ literal, Spells literal number ∧ text = literal ++ rest := by
  rw [Numeral.readUnsigned] at hread
  split at hread
  · cases hread
  · rename_i integer behind hinteger
    split at hread
    · cases hread
    · rename_i fraction afterFraction hfraction
      split at hread
      · cases hread
      · rename_i exponent afterExponent hexponent
        rcases map_eq_ok_iff.mp hread with ⟨numeral, hparts, hnumeral⟩
        obtain ⟨rfl, rfl⟩ := Prod.mk.inj hnumeral
        rcases ofParts_eq_natural_iff.mp hparts with ⟨hsign, rfl, rfl, hvalue, hbound⟩
        obtain rfl := exponent?_eq_none hexponent
        obtain rfl := fraction?_eq_none hfraction
        rcases integerPart_eq_ok hinteger with ⟨rfl, hnonempty, hdigits, hzero⟩
        exact ⟨hsign, integer, ⟨fun byte hbyte => isDigit_iff.mp (hdigits byte hbyte), hnonempty,
          hzero, (value_eq_ofDigits integer).symm.trans hvalue, hbound⟩, rfl⟩

/-- The numeral of a natural number is one of its spellings. -/
theorem spells_of_read (hread : read text = .ok (.natural number, rest)) :
    ∃ literal, Spells literal number ∧ text = literal ++ rest := by
  rw [read.eq_def] at hread
  split at hread
  · exact absurd (spells_of_readUnsigned hread).1 (by decide)
  · exact (spells_of_readUnsigned hread).2

/-- The spelling of a natural number is its numeral. -/
theorem Spells.read (h : Spells literal number) (hrest : Stops rest) :
    Numeral.read (literal ++ rest) = .ok (.natural number, rest) := by
  have hread := h.readUnsigned hrest
  rcases List.exists_cons_of_ne_nil h.nonempty with ⟨first, tail, rfl⟩
  have hsign : first ≠ 45 := by
    rintro rfl
    exact absurd (h.isDigit 45 List.mem_cons_self) (by decide)
  rw [List.cons_append] at *
  rw [Numeral.read.eq_def]
  split
  · rename_i behind hbehind
    exact absurd (List.cons.inj hbehind).1 hsign
  · exact hread

end Numeral

namespace Settings

open Numeral

variable {text literal rest : Text} {number : Nat}

/-- A value of a settings text starts with the spelling of the natural number that is read. -/
theorem spells_of_natural (hread : natural text = .ok (number, rest)) :
    ∃ literal, Spells literal number ∧ text = literal ++ rest := by
  rw [natural.eq_def] at hread
  split at hread
  · cases hread
  · rename_i first tail
    split_ifs at hread
    split at hread
    · cases hread
    · rename_i value behind hnumeral
      obtain ⟨rfl, rfl⟩ := Prod.mk.inj (Except.ok.inj hread)
      exact spells_of_read hnumeral
    · cases hread

/-- The spelling of a natural number is read as the number. -/
theorem natural_append (h : Numeral.Spells literal number) (hrest : Stops rest) :
    natural (literal ++ rest) = .ok (number, rest) := by
  have hread := h.read hrest
  rcases List.exists_cons_of_ne_nil h.nonempty with ⟨first, tail, rfl⟩
  have hfirst : Numeral.isDigit first = true := h.isDigit first List.mem_cons_self
  rw [List.cons_append] at *
  rw [natural, if_pos (.inr hfirst), hread]

end Settings

end PhraseLedger
