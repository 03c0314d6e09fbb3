import Mathlib.Tactic.IntervalCases
import Mathlib.Tactic.SplitIfs
import PhraseLedger.Settings.Quoted

/-!
# Spellings of strings

A quoted string can be spelled in many ways, since any of its characters may be written as an
escape.  The spellings of a string are given here from the side of the writer: a byte may stand
for itself, a letter behind a backslash for a common character, and the units of a character's
UTF-16 form for the character.  The reader accepts exactly these spellings.

Main definitions:

- Definition {lit}`Quoted.Spells`: the spellings of a string.

Main results:

- Theorem {lit}`Quoted.read_eq_ok_iff`: what the reader accepts, and what it reads.
- Theorem {lit}`Quoted.Spells.ascii`: a string of ASCII bytes is spelled in ASCII bytes.
-/

namespace PhraseLedger

/-- A result that is mapped succeeds if the result does. -/
theorem map_eq_ok_iff {ε α β : Type} {f : α → β} {result : Except ε α} {image : β} :
    result.map f = .ok image ↔ ∃ value, result = .ok value ∧ f value = image := by
  cases result with
  | error fault => simp [Except.map]
  | ok value => simp [Except.map]

namespace Quoted

/-! ## Escapes -/

/-- The hexadecimal digits and their values. -/
inductive HexDigit : UInt8 → Nat → Prop
  | decimal {digit : Nat} (bound : digit < 10) : HexDigit (UInt8.ofNat (48 + digit)) digit
  | upper {digit : Nat} (bound : digit < 6) : HexDigit (UInt8.ofNat (65 + digit)) (10 + digit)
  | lower {digit : Nat} (bound : digit < 6) : HexDigit (UInt8.ofNat (97 + digit)) (10 + digit)

/-- A unit written as an escape: a backslash, a letter and four hexadecimal digits. -/
inductive UnitEscape : Text → Nat → Prop
  | mk {a b c d : UInt8} {p q r s : Nat} (first : HexDigit a p) (second : HexDigit b q)
      (third : HexDigit c r) (fourth : HexDigit d s) :
      UnitEscape [backslash, unitLetter, a, b, c, d] (((p * 16 + q) * 16 + r) * 16 + s)

/-- The letters that may stand behind a backslash, and the bytes that they stand for there. -/
def letters : List (UInt8 × UInt8) :=
  [(quote, quote), (backslash, backslash), (47, 47), (98, 8), (102, 12), (110, 10), (114, 13),
    (116, 9)]

/-- The first character outside the basic plane. -/
def planeSize : Nat := 0x10000

/-- The first unit of a character outside the basic plane. -/
def highUnit (c : Char) : Nat :=
  0xD800 + (c.toNat - planeSize) / 0x400

/-- The second unit of a character outside the basic plane. -/
def lowUnit (c : Char) : Nat :=
  0xDC00 + (c.toNat - planeSize) % 0x400

/-- The spellings of a string, without the quotes around it. -/
inductive Spells : Text → Text → Prop
  | nil : Spells [] []
  /-- A byte stands for itself. -/
  | plain {byte : UInt8} {rest meaning : Text} (printable : 32 ≤ byte) (noQuote : byte ≠ quote)
      (noBackslash : byte ≠ backslash) (tail : Spells rest meaning) :
      Spells (byte :: rest) (byte :: meaning)
  /-- A letter behind a backslash stands for a byte. -/
  | letter {letter byte : UInt8} {rest meaning : Text} (known : (letter, byte) ∈ letters)
      (tail : Spells rest meaning) :
      Spells (backslash :: letter :: rest) (byte :: meaning)
  /-- A unit stands for a character of the basic plane. -/
  | unit {c : Char} {escape rest meaning : Text} (basic : c.toNat < planeSize)
      (one : UnitEscape escape c.toNat) (tail : Spells rest meaning) :
      Spells (escape ++ rest) (String.utf8EncodeChar c ++ meaning)
  /-- Two units stand for a character outside the basic plane. -/
  | pair {c : Char} {high low rest meaning : Text} (outside : planeSize ≤ c.toNat)
      (first : UnitEscape high (highUnit c)) (second : UnitEscape low (lowUnit c))
      (tail : Spells rest meaning) :
      Spells (high ++ (low ++ rest)) (String.utf8EncodeChar c ++ meaning)

/-- A byte that is a given number of places behind another one. -/
theorem eq_ofNat_of_le {byte : UInt8} {base place : Nat} (hbase : base ≤ byte.toNat)
    (hplace : byte.toNat - base = place) : byte = UInt8.ofNat (base + place) := by
  rw [← hplace, Nat.add_sub_of_le hbase, UInt8.ofNat_toNat]

theorem hexDigit?_eq_some_iff {byte : UInt8} {digit : Nat} :
    hexDigit? byte = some digit ↔ HexDigit byte digit := by
  constructor
  · intro hdigit
    simp only [hexDigit?, UInt8.le_iff_toNat_le, UInt8.reduceToNat] at hdigit
    split_ifs at hdigit with hdecimal hupper hlower
    · have hvalue := Option.some.inj hdigit
      rw [eq_ofNat_of_le hdecimal.1 hvalue]
      exact .decimal (by omega)
    · obtain ⟨place, rfl⟩ : ∃ place, digit = 10 + place :=
        ⟨digit - 10, by have hvalue := Option.some.inj hdigit; omega⟩
      have hvalue := Option.some.inj hdigit
      rw [eq_ofNat_of_le hupper.1 (by omega : byte.toNat - 65 = place)]
      exact .upper (by omega)
    · obtain ⟨place, rfl⟩ : ∃ place, digit = 10 + place :=
        ⟨digit - 10, by have hvalue := Option.some.inj hdigit; omega⟩
      have hvalue := Option.some.inj hdigit
      rw [eq_ofNat_of_le hlower.1 (by omega : byte.toNat - 97 = place)]
      exact .lower (by omega)
  · intro hdigit
    cases hdigit with
    | decimal hbound => interval_cases digit <;> rfl
    | @upper place hbound => interval_cases place <;> rfl
    | @lower place hbound => interval_cases place <;> rfl

theorem HexDigit.lt {byte : UInt8} {digit : Nat} (h : HexDigit byte digit) : digit < 16 := by
  cases h <;> omega

theorem hexUnit?_eq_some_iff {a b c d : UInt8} {unit : Nat} :
    hexUnit? a b c d = some unit ↔ UnitEscape [backslash, unitLetter, a, b, c, d] unit := by
  constructor
  · intro hunit
    rw [hexUnit?] at hunit
    split at hunit
    · rename_i hp hq hr hs
      rw [← Option.some.inj hunit]
      exact .mk (hexDigit?_eq_some_iff.mp hp) (hexDigit?_eq_some_iff.mp hq)
        (hexDigit?_eq_some_iff.mp hr) (hexDigit?_eq_some_iff.mp hs)
    · cases hunit
  · rintro ⟨hp, hq, hr, hs⟩
    rw [hexUnit?, hexDigit?_eq_some_iff.mpr hp, hexDigit?_eq_some_iff.mpr hq,
      hexDigit?_eq_some_iff.mpr hr, hexDigit?_eq_some_iff.mpr hs]

theorem UnitEscape.lt {escape : Text} {unit : Nat} (h : UnitEscape escape unit) :
    unit < planeSize := by
  cases h with
  | mk hp hq hr hs =>
      have := hp.lt
      have := hq.lt
      have := hr.lt
      have := hs.lt
      rw [planeSize]
      omega

theorem simpleEscape?_eq_some_iff {letter byte : UInt8} :
    simpleEscape? letter = some byte ↔ (letter, byte) ∈ letters := by
  constructor
  · intro hescape
    simp only [simpleEscape?] at hescape
    split_ifs at hescape with hself
    · obtain rfl := Option.some.inj hescape
      rcases hself with rfl | rfl | rfl <;> decide
    all_goals
      subst_vars
      obtain rfl := Option.some.inj hescape
      decide
  · intro hknown
    simp only [letters, List.mem_cons, Prod.mk.injEq, List.not_mem_nil, or_false] at hknown
    rcases hknown with ⟨rfl, rfl⟩ | ⟨rfl, rfl⟩ | ⟨rfl, rfl⟩ | ⟨rfl, rfl⟩ | ⟨rfl, rfl⟩ |
      ⟨rfl, rfl⟩ | ⟨rfl, rfl⟩ | ⟨rfl, rfl⟩ <;> decide

/-! ## Units of UTF-16 -/

theorem isHighSurrogate_iff {unit : Nat} :
    isHighSurrogate unit = true ↔ 0xD800 ≤ unit ∧ unit ≤ 0xDBFF := by
  rw [isHighSurrogate, Bool.and_eq_true, decide_eq_true_iff, decide_eq_true_iff]

theorem isLowSurrogate_iff {unit : Nat} :
    isLowSurrogate unit = true ↔ 0xDC00 ≤ unit ∧ unit ≤ 0xDFFF := by
  rw [isLowSurrogate, Bool.and_eq_true, decide_eq_true_iff, decide_eq_true_iff]

theorem toNat_ofNat {code : Nat} (hvalid : code.isValidChar) : (Char.ofNat code).toNat = code := by
  rw [Char.ofNat, dif_pos hvalid]
  rfl

/-- A unit that is no surrogate is a character. -/
theorem toNat_ofNat_unit {unit : Nat} (hunit : unit < planeSize)
    (hlow : ¬isLowSurrogate unit = true) (hhigh : ¬isHighSurrogate unit = true) :
    (Char.ofNat unit).toNat = unit := by
  rw [isLowSurrogate_iff] at hlow
  rw [isHighSurrogate_iff] at hhigh
  rw [planeSize] at hunit
  exact toNat_ofNat (by omega)

/-- No character of the basic plane is a surrogate. -/
theorem not_surrogate (c : Char) :
    ¬isLowSurrogate c.toNat = true ∧ ¬isHighSurrogate c.toNat = true := by
  have hvalid : c.toNat.isValidChar := c.valid
  rw [isLowSurrogate_iff, isHighSurrogate_iff]
  omega

/-- A pair of surrogates is a character outside the basic plane, and its units are the pair. -/
theorem units_ofPair {high low : Nat} (hhigh : isHighSurrogate high = true)
    (hlow : isLowSurrogate low = true) :
    planeSize ≤ (ofPair high low).toNat ∧ highUnit (ofPair high low) = high ∧
      lowUnit (ofPair high low) = low := by
  rw [isHighSurrogate_iff] at hhigh
  rw [isLowSurrogate_iff] at hlow
  have hcode : (ofPair high low).toNat = (high - 0xD800) * 0x400 + (low - 0xDC00) + 0x10000 :=
    toNat_ofNat (by omega)
  rw [highUnit, lowUnit, hcode, planeSize]
  omega

/-- The units of a character outside the basic plane are a pair of surrogates, and the character
is what the pair stands for. -/
theorem ofPair_units {c : Char} (houtside : planeSize ≤ c.toNat) :
    isHighSurrogate (highUnit c) = true ∧ isLowSurrogate (lowUnit c) = true ∧
      ofPair (highUnit c) (lowUnit c) = c := by
  have hvalid : c.toNat.isValidChar := c.valid
  rw [isHighSurrogate_iff, isLowSurrogate_iff, ofPair, highUnit, lowUnit]
  rw [planeSize] at *
  refine ⟨by omega, by omega, ?_⟩
  have hcode : (0xD800 + (c.toNat - 0x10000) / 0x400 - 0xD800) * 0x400 +
      (0xDC00 + (c.toNat - 0x10000) % 0x400 - 0xDC00) + 0x10000 = c.toNat := by omega
  rw [hcode, Char.ofNat_toNat]

/-! ## ASCII -/

theorem HexDigit.ascii {byte : UInt8} {digit : Nat} (h : HexDigit byte digit) : byte < 0x80 := by
  cases h with
  | decimal hbound => interval_cases digit <;> decide
  | @upper place hbound => interval_cases place <;> decide
  | @lower place hbound => interval_cases place <;> decide

theorem UnitEscape.ascii {escape : Text} {unit : Nat} (h : UnitEscape escape unit) :
    ∀ byte ∈ escape, byte < 0x80 := by
  rcases h with ⟨hp, hq, hr, hs⟩
  simp only [List.forall_mem_cons]
  exact ⟨by decide, by decide, hp.ascii, hq.ascii, hr.ascii, hs.ascii, fun _ => nofun⟩

theorem letters_ascii : ∀ known ∈ letters, known.1 < 0x80 := by
  have hall : (letters.all fun known => known.1 < 0x80) = true := by decide
  exact fun known hknown => of_decide_eq_true (List.all_eq_true.mp hall known hknown)

/-- A string of ASCII bytes is spelled in ASCII bytes. -/
theorem Spells.ascii {spelling meaning : Text} (h : Spells spelling meaning)
    (hmeaning : ∀ byte ∈ meaning, byte < 0x80) : ∀ byte ∈ spelling, byte < 0x80 := by
  induction h with
  | nil => exact hmeaning
  | plain _ _ _ _ ih =>
      rw [List.forall_mem_cons] at *
      exact ⟨hmeaning.1, ih hmeaning.2⟩
  | letter hknown _ ih =>
      rw [List.forall_mem_cons] at hmeaning
      exact List.forall_mem_cons.mpr
        ⟨by decide, List.forall_mem_cons.mpr ⟨letters_ascii _ hknown, ih hmeaning.2⟩⟩
  | unit _ hescape _ ih =>
      rw [List.forall_mem_append] at *
      exact ⟨hescape.ascii, ih hmeaning.2⟩
  | pair _ hhigh hlow _ ih =>
      rw [List.forall_mem_append] at *
      exact ⟨hhigh.ascii, List.forall_mem_append.mpr ⟨hlow.ascii, ih hmeaning.2⟩⟩

/-! ## The reader -/

theorem prepend_eq_ok_iff {bytes meaning rest : Text} {found : Except SettingsFault (Text × Text)} :
    prepend bytes found = .ok (meaning, rest) ↔
      ∃ tail, found = .ok (tail, rest) ∧ meaning = bytes ++ tail := by
  rw [prepend, map_eq_ok_iff]
  constructor
  · rintro ⟨⟨tail, behind⟩, hfound, hmeaning⟩
    obtain ⟨rfl, rfl⟩ := Prod.mk.inj hmeaning
    exact ⟨tail, hfound, rfl⟩
  · rintro ⟨tail, hfound, rfl⟩
    exact ⟨_, hfound, rfl⟩

/-- What the reader accepts is a spelling with a quote behind it. -/
theorem spells_of_read {text meaning rest : Text} (hread : read text = .ok (meaning, rest)) :
    ∃ spelling, Spells spelling meaning ∧ text = spelling ++ quote :: rest := by
  -- The cases that are named are those in which the reader goes on or ends; in all others it
  -- fails.
  fun_induction read text generalizing meaning rest with
  | case2 behind =>
      obtain ⟨rfl, rfl⟩ := Prod.mk.inj (Except.ok.inj hread)
      exact ⟨[], .nil, rfl⟩
  | case4 byte behind hquote hprintable hbackslash ih =>
      rcases prepend_eq_ok_iff.mp hread with ⟨tail, htail, rfl⟩
      rcases ih htail with ⟨spelling, hspells, rfl⟩
      exact ⟨byte :: spelling, .plain (UInt8.not_lt.mp hprintable) hquote hbackslash hspells, rfl⟩
  | case7 mark _ _ hmark letter behind _ byte hletter ih =>
      obtain rfl := not_not.mp hmark
      rcases prepend_eq_ok_iff.mp hread with ⟨tail, htail, rfl⟩
      rcases ih htail with ⟨spelling, hspells, rfl⟩
      exact ⟨backslash :: letter :: spelling,
        .letter (simpleEscape?_eq_some_iff.mp hletter) hspells, rfl⟩
  | case10 mark _ _ hmark letter hletter a b c d behind unit hunit hlow hhigh ih =>
      obtain rfl := not_not.mp hmark
      obtain rfl := not_not.mp hletter
      rcases prepend_eq_ok_iff.mp hread with ⟨tail, htail, rfl⟩
      rcases ih htail with ⟨spelling, hspells, rfl⟩
      have hescape := hexUnit?_eq_some_iff.mp hunit
      have hchar := toNat_ofNat_unit hescape.lt hlow (by simpa using hhigh)
      exact ⟨[backslash, unitLetter, a, b, c, d] ++ spelling,
        .unit (hchar.symm ▸ hescape.lt) (hchar.symm ▸ hescape) hspells, rfl⟩
  | case16 mark _ _ hmark letter hletter a b c d high hfirst _ hhigh mark' letter' hsecond e f g h
      behind low hunit hlow ih =>
      obtain rfl := not_not.mp hmark
      obtain rfl := not_not.mp hletter
      obtain ⟨hmark', hletter'⟩ := not_or.mp hsecond
      obtain rfl := not_not.mp hmark'
      obtain rfl := not_not.mp hletter'
      have hhigh : isHighSurrogate high = true := by simpa using hhigh
      rcases units_ofPair hhigh hlow with ⟨houtside, hhighUnit, hlowUnit⟩
      have hfirst := hexUnit?_eq_some_iff.mp hfirst
      have hsecond := hexUnit?_eq_some_iff.mp hunit
      rw [← hhighUnit] at hfirst
      rw [← hlowUnit] at hsecond
      generalize ofPair high low = c at *
      rcases prepend_eq_ok_iff.mp hread with ⟨tail, htail, rfl⟩
      rcases ih htail with ⟨spelling, hspells, rfl⟩
      refine ⟨_, .pair houtside hfirst hsecond hspells, ?_⟩
      simp only [List.cons_append, List.nil_append]
  | _ => cases hread

/-- A unit of the basic plane is read as its character. -/
theorem read_unit {c : Char} {escape : Text} (hescape : UnitEscape escape c.toNat) (rest : Text) :
    read (escape ++ rest) = prepend (String.utf8EncodeChar c) (read rest) := by
  rcases not_surrogate c with ⟨hlow, hhigh⟩
  generalize hunit : c.toNat = unit at hescape
  rcases hescape with ⟨hp, hq, hr, hs⟩
  have hescape := hexUnit?_eq_some_iff.mpr (UnitEscape.mk hp hq hr hs)
  rw [hunit] at hlow hhigh
  have hchar : Char.ofNat c.toNat = c := Char.ofNat_toNat c
  rw [hunit] at hchar
  simp only [List.cons_append, List.nil_append]
  rw [read, if_neg (by decide), if_neg (by decide), if_neg (by decide), hescape]
  simp only [ne_eq, not_true_eq_false, if_false]
  rw [if_neg hlow, if_pos (by simpa using hhigh), hchar]

/-- The pair of units of a character outside the basic plane is read as the character. -/
theorem read_pair {c : Char} (houtside : planeSize ≤ c.toNat) {high low : Text}
    (hhigh : UnitEscape high (highUnit c)) (hlow : UnitEscape low (lowUnit c)) (rest : Text) :
    read (high ++ (low ++ rest)) = prepend (String.utf8EncodeChar c) (read rest) := by
  rcases ofPair_units houtside with ⟨hfirst, hsecond, hpair⟩
  generalize highUnit c = first at *
  generalize lowUnit c = second at *
  rcases hhigh with ⟨hp, hq, hr, hs⟩
  rcases hlow with ⟨hp', hq', hr', hs'⟩
  have hhigh := hexUnit?_eq_some_iff.mpr (UnitEscape.mk hp hq hr hs)
  have hlow := hexUnit?_eq_some_iff.mpr (UnitEscape.mk hp' hq' hr' hs')
  have hnotLow := hfirst
  rw [isHighSurrogate_iff] at hnotLow
  simp only [List.cons_append, List.nil_append]
  rw [read, if_neg (by decide), if_neg (by decide), if_neg (by decide), hhigh]
  simp only [ne_eq, not_true_eq_false, if_false]
  rw [if_neg (by rw [isLowSurrogate_iff]; omega), hfirst, if_neg (by decide), if_neg (by decide),
    hlow]
  simp only
  rw [if_pos hsecond, hpair]

/-- A spelling with a quote behind it is read as the string that it spells. -/
theorem Spells.read {spelling meaning : Text} (h : Spells spelling meaning) (rest : Text) :
    Quoted.read (spelling ++ quote :: rest) = .ok (meaning, rest) := by
  induction h with
  | nil =>
      rw [List.nil_append, Quoted.read.eq_def]
      exact if_pos rfl
  | @plain byte tail meaning hprintable hquote hbackslash _ ih =>
      rw [List.cons_append, Quoted.read.eq_def]
      simp only [if_neg hquote, if_neg (UInt8.not_lt.mpr hprintable)]
      rw [if_pos hbackslash, ih]
      rfl
  | @letter letter byte tail meaning hknown _ ih =>
      have hunit : letter ≠ unitLetter := by
        rintro rfl
        revert hknown
        simp [letters, unitLetter, quote, backslash]
      rw [List.cons_append, List.cons_append, Quoted.read.eq_def]
      simp only
      rw [if_neg (by decide), if_neg (by decide), if_neg (by decide), if_pos hunit,
        simpleEscape?_eq_some_iff.mpr hknown]
      simp only [ih]
      rfl
  | unit _ hescape _ ih =>
      rw [List.append_assoc, read_unit hescape, ih]
      rfl
  | pair houtside hhigh hlow _ ih =>
      rw [List.append_assoc, List.append_assoc, read_pair houtside hhigh hlow, ih]
      rfl

/-- The reader accepts exactly the spellings of strings, and reads the strings. -/
theorem read_eq_ok_iff {text meaning rest : Text} :
    read text = .ok (meaning, rest) ↔
      ∃ spelling, Spells spelling meaning ∧ text = spelling ++ quote :: rest := by
  constructor
  · exact spells_of_read
  · rintro ⟨spelling, hspells, rfl⟩
    exact hspells.read rest

end Quoted

end PhraseLedger
