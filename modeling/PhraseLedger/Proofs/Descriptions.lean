import Mathlib.Data.List.Perm.Subperm
import Mathlib.Data.List.TakeWhile
import PhraseLedger.Proofs.Bindings
import PhraseLedger.Proofs.Numerals
import PhraseLedger.Proofs.Spellings

/-!
# Descriptions of settings

A settings text is JSON of one of two forms: an object whose members give distinct fields natural
numbers, or an array of the numbers for the first fields.  The texts of both forms are given here
as the writer sees them, with blanks wherever JSON allows them, and the reader that goes through
a text from left to right accepts exactly these texts.

Main definitions:

- Definition {lit}`Settings.Describes`: the settings texts, and the fields that they bind.

Main results:

- Theorem {lit}`Settings.bindings_eq_ok_iff`: what the reader accepts is what describes bindings.
- Theorem {lit}`Settings.Describes.ascii`: a settings text is ASCII.
-/

namespace PhraseLedger

namespace Settings

open Numeral (Stops)

/-! ## The form of settings texts -/

/-- Whether a text consists of spaces, tabs, line feeds and carriage returns. -/
def Blank (text : Text) : Prop :=
  ∀ byte ∈ text, byte = 32 ∨ byte = 9 ∨ byte = 10 ∨ byte = 13

/-- What stands in front of an item of a list: blanks, and among them a comma unless the item is
the first one. -/
inductive Front : Bool → Text → Prop
  | first {blanks : Text} (blank : Blank blanks) : Front true blanks
  | next {before behind : Text} (blankBefore : Blank before) (blankBehind : Blank behind) :
      Front false (before ++ 44 :: behind)

/-- The texts between the brackets of a list, from its first item on or from a later one on, and
the items of the list. -/
inductive Listing {α : Type} (Item : Text → α → Prop) : Bool → Text → List α → Prop
  | stop {first : Bool} {blanks : Text} (blank : Blank blanks) : Listing Item first blanks []
  | item {first : Bool} {lead text rest : Text} {item : α} {items : List α}
      (front : Front first lead) (here : Item text item) (others : Listing Item false rest items) :
      Listing Item first (lead ++ (text ++ rest)) (item :: items)

/-- A member of an object: the name of a field in quotes, a colon and a natural number. -/
inductive Member : Text → Field × Nat → Prop
  | mk {key before behind literal : Text} {field : Field} {number : Nat}
      (name : Quoted.Spells key (Text.ofString field.name)) (blankBefore : Blank before)
      (blankBehind : Blank behind) (value : Numeral.Spells literal number) :
      Member (34 :: (key ++ 34 :: (before ++ 58 :: (behind ++ literal)))) (field, number)

/-- The settings texts, and the fields that they bind: an object binds each field at most once,
and an array binds the first fields. -/
inductive Describes : Text → Bindings → Prop
  | object {before inner behind : Text} {found : Bindings} (blankBefore : Blank before)
      (members : Listing Member true inner found) (distinct : (found.map Prod.fst).Nodup)
      (blankBehind : Blank behind) :
      Describes (before ++ 123 :: (inner ++ 125 :: behind)) found
  | array {before inner behind : Text} {numbers : List Nat} (blankBefore : Blank before)
      (elements : Listing Numeral.Spells true inner numbers)
      (few : numbers.length ≤ Field.all.length) (blankBehind : Blank behind) :
      Describes (before ++ 91 :: (inner ++ 93 :: behind)) (Field.all.zip numbers)

/-! ## Blanks -/

variable {text rest : Text} {byte : UInt8} {first : Bool}

theorem isBlank_iff : isBlank byte = true ↔ byte = 32 ∨ byte = 9 ∨ byte = 10 ∨ byte = 13 := by
  simp only [isBlank, Bool.or_eq_true, beq_iff_eq, or_assoc]

theorem exists_skipBlank (text : Text) : ∃ blanks, Blank blanks ∧ text = blanks ++ skipBlank text :=
  ⟨text.takeWhile isBlank,
    fun _ hbyte => isBlank_iff.mp (List.all_eq_true.mp List.all_takeWhile _ hbyte),
    List.takeWhile_append_dropWhile.symm⟩

/-- Blanks in front of a byte that is none are skipped. -/
theorem skipBlank_append {blanks : Text} (hblank : Blank blanks) (hbyte : ¬isBlank byte = true) :
    skipBlank (blanks ++ byte :: rest) = byte :: rest := by
  rw [skipBlank, List.dropWhile_append_of_pos fun byte hmem => isBlank_iff.mpr (hblank byte hmem),
    List.dropWhile_cons_of_neg hbyte]

/-- The text that is left without its blanks stands behind blanks. -/
theorem exists_blanks (hskip : skipBlank text = byte :: rest) :
    ∃ blanks, Blank blanks ∧ text = blanks ++ byte :: rest := by
  rw [← hskip]
  exact exists_skipBlank text

/-- The first item of a list stands behind blanks. -/
theorem exists_first_front (hskip : skipBlank text = byte :: rest) :
    ∃ lead, Front true lead ∧ text = lead ++ byte :: rest := by
  rcases exists_blanks hskip with ⟨blanks, hblank, htext⟩
  exact ⟨blanks, .first hblank, htext⟩

/-- A later item of a list stands behind a comma with blanks around it. -/
theorem exists_next_front {behind : Text} (hcomma : skipBlank text = 44 :: behind)
    (hskip : skipBlank behind = byte :: rest) :
    ∃ lead, Front false lead ∧ text = lead ++ byte :: rest := by
  rcases exists_blanks hcomma with ⟨before, hbefore, rfl⟩
  rcases exists_blanks hskip with ⟨between, hbetween, rfl⟩
  refine ⟨before ++ 44 :: between, .next hbefore hbetween, ?_⟩
  rw [List.append_assoc, List.cons_append]

/-! ## Arrays -/

theorem closeArray_eq_ok_iff :
    closeArray text = .ok rest ↔ ∃ blanks, Blank blanks ∧ text = blanks ++ 93 :: rest := by
  rw [closeArray]
  constructor
  · intro hclose
    split at hclose
    · cases hclose
    · rename_i byte behind hskip
      split_ifs at hclose with hbracket
      obtain rfl := Except.ok.inj hclose
      exact hbracket ▸ exists_blanks hskip
  · rintro ⟨blanks, hblank, rfl⟩
    rw [skipBlank_append hblank (by decide)]
    rfl

/-- An element stands behind what may stand in front of it. -/
theorem front_of_nextElement {element : Text}
    (hnext : nextElement first text = .ok (some element)) :
    ∃ lead, Front first lead ∧ text = lead ++ element := by
  rw [nextElement] at hnext
  split at hnext
  · cases hnext
  · rename_i byte behind hskip
    split_ifs at hnext with hclose hfirst hcomma
    · cases hnext
    · obtain rfl := Option.some.inj (Except.ok.inj hnext)
      exact hfirst ▸ exists_first_front hskip
    · split at hnext
      · cases hnext
      · rename_i start tail hstart
        split_ifs at hnext
        obtain rfl := Option.some.inj (Except.ok.inj hnext)
        obtain rfl := not_not.mp hcomma
        rw [Bool.not_eq_true] at hfirst
        exact hfirst ▸ exists_next_front hskip hstart

theorem nextElement_append {lead : Text} (hfront : Front first lead) (hblank : ¬isBlank byte = true)
    (hbracket : byte ≠ 93) :
    nextElement first (lead ++ byte :: rest) = .ok (some (byte :: rest)) := by
  rw [nextElement]
  cases hfront with
  | first hlead =>
      rw [skipBlank_append hlead hblank]
      simp only [if_neg hbracket, if_true]
  | next hbefore hbehind =>
      rw [List.append_assoc, List.cons_append, skipBlank_append hbefore (by decide)]
      simp only [Bool.false_eq_true, if_false, skipBlank_append hbehind hblank, if_neg hbracket]
      rfl

theorem nextElement_close {blanks : Text} (hblank : Blank blanks) :
    nextElement first (blanks ++ 93 :: rest) = .ok none := by
  rw [nextElement, skipBlank_append hblank (by decide)]
  rfl

/-- A list without further elements ends an array. -/
theorem listing_of_closeArray {fields : List Field} {found : Bindings}
    (hread : (closeArray text).map (fun behind => ([], behind)) = .ok (found, rest)) :
    ∃ inner numbers, Listing Numeral.Spells first inner numbers ∧
      numbers.length ≤ fields.length ∧ found = fields.zip numbers ∧ text = inner ++ 93 :: rest := by
  rcases map_eq_ok_iff.mp hread with ⟨behind, hclose, hfound⟩
  obtain ⟨rfl, rfl⟩ := Prod.mk.inj hfound
  rcases closeArray_eq_ok_iff.mp hclose with ⟨blanks, hblank, htext⟩
  exact ⟨blanks, [], .stop hblank, Nat.zero_le _, List.zip_nil_right.symm, htext⟩

/-- The elements that are read stand in front of the closing bracket. -/
theorem listing_of_elements {fields : List Field} {found : Bindings}
    (hread : elements first fields text = .ok (found, rest)) :
    ∃ inner numbers, Listing Numeral.Spells first inner numbers ∧
      numbers.length ≤ fields.length ∧ found = fields.zip numbers ∧ text = inner ++ 93 :: rest := by
  induction fields generalizing first text found with
  | nil => exact listing_of_closeArray hread
  | cons field fields ih =>
      rw [elements] at hread
      split at hread
      · cases hread
      · exact listing_of_closeArray hread
      · rename_i element hnext
        split at hread
        · cases hread
        · rename_i number behind hnumber
          rcases map_eq_ok_iff.mp hread with ⟨⟨others, last⟩, hothers, hfound⟩
          obtain ⟨rfl, rfl⟩ := Prod.mk.inj hfound
          rcases front_of_nextElement hnext with ⟨lead, hfront, rfl⟩
          rcases spells_of_natural hnumber with ⟨literal, hliteral, rfl⟩
          rcases ih hothers with ⟨inner, numbers, hlisting, hlength, rfl, rfl⟩
          refine ⟨lead ++ (literal ++ inner), number :: numbers,
            .item hfront hliteral hlisting, Nat.succ_le_succ hlength, rfl, ?_⟩
          simp only [List.append_assoc]

/-- What stands behind an item of a list is a blank, a comma or what ends the list. -/
theorem Listing.head_cases {α : Type} {Item : Text → α → Prop} {inner : Text} {items : List α}
    {closing : UInt8} (h : Listing Item false inner items) :
    ∀ byte ∈ (inner ++ closing :: rest).head?,
      (byte = 32 ∨ byte = 9 ∨ byte = 10 ∨ byte = 13) ∨ byte = 44 ∨ byte = closing := by
  have hblanks : ∀ blanks : Text, Blank blanks → ∀ mark : UInt8, ∀ behind : Text,
      ∀ byte ∈ (blanks ++ mark :: behind).head?,
        (byte = 32 ∨ byte = 9 ∨ byte = 10 ∨ byte = 13) ∨ byte = mark := by
    rintro (_ | ⟨blank, blanks⟩) hblank mark behind byte hbyte
    · exact .inr (Option.some.inj hbyte).symm
    · exact .inl (Option.some.inj hbyte ▸ hblank blank List.mem_cons_self)
  intro byte hbyte
  cases h with
  | stop hblank => exact (hblanks _ hblank _ _ byte hbyte).imp_right .inr
  | item hfront _ _ =>
      cases hfront with
      | next hbefore _ =>
          simp only [List.append_assoc, List.cons_append] at hbyte
          exact (hblanks _ hbefore _ _ byte hbyte).imp_right .inl

/-- No numeral goes on behind an item of a list. -/
theorem Listing.stops {α : Type} {Item : Text → α → Prop} {inner : Text} {items : List α}
    {closing : UInt8} (h : Listing Item false inner items)
    (hclosing : closing = 93 ∨ closing = 125) : Stops (inner ++ closing :: rest) := by
  intro byte hbyte
  rcases h.head_cases byte hbyte with (rfl | rfl | rfl | rfl) | rfl | rfl
  iterate 5 decide
  rcases hclosing with rfl | rfl <;> decide

/-- The spelling of a number starts with a byte that is neither a blank nor a bracket. -/
theorem exists_digit {literal : Text} {number : Nat} (h : Numeral.Spells literal number) :
    ∃ byte tail, literal = byte :: tail ∧ ¬isBlank byte = true ∧ byte ≠ 93 := by
  rcases List.exists_cons_of_ne_nil h.nonempty with ⟨byte, tail, rfl⟩
  have hdigit := h.digits byte List.mem_cons_self
  simp only [UInt8.le_iff_toNat_le, UInt8.reduceToNat] at hdigit
  refine ⟨byte, tail, rfl, ?_, ?_⟩
  · rw [isBlank_iff]
    rintro (rfl | rfl | rfl | rfl) <;> exact absurd hdigit (by decide)
  · rintro rfl
    exact absurd hdigit (by decide)

/-- The elements in front of a closing bracket are read. -/
theorem Listing.elements {inner : Text} {numbers : List Nat}
    (h : Listing Numeral.Spells first inner numbers) {fields : List Field}
    (hlength : numbers.length ≤ fields.length) (rest : Text) :
    Settings.elements first fields (inner ++ 93 :: rest) = .ok (fields.zip numbers, rest) := by
  induction h generalizing fields with
  | @stop first blanks hblank =>
      have hclose : closeArray (blanks ++ 93 :: rest) = .ok rest :=
        closeArray_eq_ok_iff.mpr ⟨blanks, hblank, rfl⟩
      cases fields with
      | nil =>
          rw [Settings.elements, hclose]
          rfl
      | cons field fields =>
          rw [Settings.elements, nextElement_close hblank]
          simp only [hclose]
          rfl
  | @item first lead literal behind number numbers hfront hliteral hothers ih =>
      cases fields with
      | nil => exact absurd hlength (Nat.not_succ_le_zero _)
      | cons field fields =>
          have hnext : nextElement first (lead ++ (literal ++ (behind ++ 93 :: rest))) =
              .ok (some (literal ++ (behind ++ 93 :: rest))) := by
            rcases exists_digit hliteral with ⟨byte, tail, rfl, hblank, hbracket⟩
            exact nextElement_append hfront hblank hbracket
          rw [List.append_assoc, List.append_assoc, Settings.elements, hnext]
          simp only
          rw [natural_append hliteral (hothers.stops (.inl rfl))]
          simp only
          rw [ih (Nat.le_of_succ_le_succ hlength)]
          rfl

/-! ## Objects -/

/-- The key of a member stands behind what may stand in front of it. -/
theorem front_of_nextKey (hnext : nextKey first text = .ok (true, rest)) :
    ∃ lead, Front first lead ∧ text = lead ++ 34 :: rest := by
  rw [nextKey] at hnext
  split at hnext
  · cases hnext
  · rename_i byte behind hskip
    split_ifs at hnext with hclose hfirst hquote hcomma
    · cases hnext
    · obtain ⟨-, rfl⟩ := Prod.mk.inj (Except.ok.inj hnext)
      obtain rfl := hquote
      exact hfirst ▸ exists_first_front hskip
    · split at hnext
      · cases hnext
      · rename_i start tail hstart
        split_ifs at hnext with hquote
        obtain ⟨-, rfl⟩ := Prod.mk.inj (Except.ok.inj hnext)
        obtain rfl := hquote
        obtain rfl := not_not.mp hcomma
        rw [Bool.not_eq_true] at hfirst
        exact hfirst ▸ exists_next_front hskip hstart

/-- Nothing but blanks stands in front of the end of an object that has no further key. -/
theorem blanks_of_nextKey (hnext : nextKey first text = .ok (false, rest)) :
    ∃ blanks, Blank blanks ∧ text = blanks ++ 125 :: rest := by
  rw [nextKey] at hnext
  split at hnext
  · cases hnext
  · rename_i byte behind hskip
    split_ifs at hnext with hclose hfirst hquote hcomma
    · obtain ⟨-, rfl⟩ := Prod.mk.inj (Except.ok.inj hnext)
      exact hclose ▸ exists_blanks hskip
    · cases hnext
    · split at hnext
      · cases hnext
      · split_ifs at hnext
        cases hnext

theorem nextKey_append {lead : Text} (hfront : Front first lead) :
    nextKey first (lead ++ 34 :: rest) = .ok (true, rest) := by
  rw [nextKey]
  cases hfront with
  | first hlead =>
      rw [skipBlank_append hlead (by decide)]
      rfl
  | @next before behind hbefore hbehind =>
      have hkey : skipBlank (behind ++ 34 :: rest) = 34 :: rest :=
        skipBlank_append hbehind (by decide)
      rw [List.append_assoc, List.cons_append, skipBlank_append hbefore (by decide)]
      simp only [Bool.false_eq_true, if_false, hkey]
      rfl

theorem nextKey_close {blanks : Text} (hblank : Blank blanks) :
    nextKey first (blanks ++ 125 :: rest) = .ok (false, rest) := by
  rw [nextKey, skipBlank_append hblank (by decide)]
  rfl

/-- The value of a member stands behind a colon, with blanks around it. -/
theorem exists_memberValue {number : Nat} (hread : memberValue text = .ok (number, rest)) :
    ∃ before behind literal, Blank before ∧ Blank behind ∧ Numeral.Spells literal number ∧
      text = before ++ 58 :: (behind ++ (literal ++ rest)) := by
  rw [memberValue] at hread
  split at hread
  · cases hread
  · rename_i byte tail hskip
    split_ifs at hread with hcolon
    obtain rfl := hcolon
    rcases exists_blanks hskip with ⟨before, hbefore, rfl⟩
    rcases exists_skipBlank tail with ⟨behind, hbehind, htail⟩
    rcases spells_of_natural hread with ⟨literal, hliteral, hvalue⟩
    exact ⟨before, behind, literal, hbefore, hbehind, hliteral, by rw [← hvalue, ← htail]⟩

theorem memberValue_append {before behind literal : Text} {number : Nat} (hbefore : Blank before)
    (hbehind : Blank behind) (hliteral : Numeral.Spells literal number) (hrest : Stops rest) :
    memberValue (before ++ 58 :: (behind ++ (literal ++ rest))) = .ok (number, rest) := by
  rw [memberValue, skipBlank_append hbefore (by decide)]
  have hskip : skipBlank (behind ++ (literal ++ rest)) = literal ++ rest := by
    rcases exists_digit hliteral with ⟨byte, tail, rfl, hblank, -⟩
    exact skipBlank_append hbehind hblank
  simp only [hskip, if_true]
  exact natural_append hliteral hrest

/-- How the members of an object are read: either nothing but its end is left, or a member of a
field that is not bound yet is read, and then the others. -/
theorem members_eq_ok_iff {bound found : Bindings} {left : Nat} :
    members first bound left text = .ok (found, rest) ↔
    (nextKey first text = .ok (false, rest) ∧ found = []) ∨
      ∃ afterQuote afterKey behind field number others fewer,
        nextKey first text = .ok (true, afterQuote) ∧
        Quoted.read afterQuote = .ok (Text.ofString field.name, afterKey) ∧
        bound.lookup field = none ∧ memberValue afterKey = .ok (number, behind) ∧
        left = fewer + 1 ∧
        members false ((field, number) :: bound) fewer behind = .ok (others, rest) ∧
        found = (field, number) :: others := by
  constructor
  · intro hread
    rw [members.eq_def] at hread
    simp only at hread
    split at hread
    · cases hread
    · rename_i behind hnext
      obtain ⟨rfl, rfl⟩ := Prod.mk.inj (Except.ok.inj hread)
      exact .inl ⟨hnext, rfl⟩
    · rename_i afterQuote hnext
      split at hread
      · cases hread
      · rename_i name afterKey hkey
        split at hread
        · rename_i fewer field hname
          obtain rfl := Field.ofName?_eq_some_iff.mp hname
          split_ifs at hread with hbound
          split at hread
          · cases hread
          · rename_i number behind hvalue
            rcases map_eq_ok_iff.mp hread with ⟨⟨others, last⟩, hothers, hfound⟩
            obtain ⟨rfl, rfl⟩ := Prod.mk.inj hfound
            rw [Option.not_isSome_iff_eq_none] at hbound
            exact .inr ⟨afterQuote, afterKey, behind, field, number, others, fewer, hnext, hkey,
              hbound, hvalue, rfl, hothers, rfl⟩
        · cases hread
  · rw [members.eq_def]
    rintro (⟨hnext, rfl⟩ | ⟨afterQuote, afterKey, behind, field, number, others, fewer, hnext, hkey,
      hbound, hvalue, rfl, hothers, rfl⟩)
    · simp only [hnext]
    · simp only [hnext, hkey, Field.ofName?_eq_some_iff.mpr rfl, hbound, Option.isSome_none,
        Bool.false_eq_true, if_false, hvalue, hothers]
      rfl

/-- The members that are read stand in front of the closing bracket, and bind fields that are
different from each other and from those bound before. -/
theorem listing_of_members {bound found : Bindings} {left : Nat}
    (hread : members first bound left text = .ok (found, rest)) :
    ∃ inner, Listing Member first inner found ∧ (found.map Prod.fst).Nodup ∧
      (∀ field ∈ found.map Prod.fst, bound.lookup field = none) ∧ text = inner ++ 125 :: rest := by
  -- Induction on what was read: the count of fields that are left may not be used up.
  induction found generalizing first bound left text with
  | nil =>
      rcases members_eq_ok_iff.mp hread with ⟨hnext, -⟩ |
        ⟨_, _, _, _, _, _, _, _, _, _, _, _, _, hfound⟩
      · rcases blanks_of_nextKey hnext with ⟨blanks, hblank, htext⟩
        exact ⟨blanks, .stop hblank, List.nodup_nil, fun _ => nofun, htext⟩
      · cases hfound
  | cons binding found ih =>
      rcases members_eq_ok_iff.mp hread with ⟨-, hfound⟩ |
        ⟨afterQuote, afterKey, behind, field, number, others, fewer, hnext, hkey, hfree, hvalue,
          -, hothers, hfound⟩
      · cases hfound
      · obtain ⟨rfl, rfl⟩ := List.cons.inj hfound
        rcases front_of_nextKey hnext with ⟨lead, hfront, rfl⟩
        rcases Quoted.read_eq_ok_iff.mp hkey with ⟨key, hspelling, rfl⟩
        rcases exists_memberValue hvalue with
          ⟨before, between, literal, hbefore, hbetween, hliteral, rfl⟩
        rcases ih hothers with ⟨inner, hlisting, hdistinct, hbound, rfl⟩
        -- The later members were read with this field among the bound ones.
        have hnew : ∀ other ∈ found.map Prod.fst, other ≠ field ∧ bound.lookup other = none := by
          intro other hother
          have hother := hbound other hother
          rw [List.lookup_cons] at hother
          split at hother
          · cases hother
          · rename_i hne
            exact ⟨by simpa using hne, hother⟩
        refine ⟨_, .item hfront (.mk hspelling hbefore hbetween hliteral) hlisting, ?_, ?_, ?_⟩
        · rw [List.map_cons, List.nodup_cons]
          exact ⟨fun hmem => (hnew field hmem).1 rfl, hdistinct⟩
        · rw [List.map_cons, List.forall_mem_cons]
          exact ⟨hfree, fun other hother => (hnew other hother).2⟩
        · simp only [List.append_assoc, List.cons_append]
          rfl

/-- The members in front of a closing bracket are read. -/
theorem Listing.members {inner : Text} {found : Bindings} (h : Listing Member first inner found)
    {bound : Bindings} {left : Nat} (hdistinct : (found.map Prod.fst).Nodup)
    (hbound : ∀ field ∈ found.map Prod.fst, bound.lookup field = none)
    (hleft : found.length ≤ left) (rest : Text) :
    Settings.members first bound left (inner ++ 125 :: rest) = .ok (found, rest) := by
  induction h generalizing bound left with
  | stop hblank => exact members_eq_ok_iff.mpr (.inl ⟨nextKey_close hblank, rfl⟩)
  | @item first lead text behind binding found hfront hmember hothers ih =>
      cases left with
      | zero => exact absurd hleft (Nat.not_succ_le_zero _)
      | succ left =>
          rcases hmember with
            @⟨key, before, between, literal, field, number, hkey, hbefore, hbetween, hliteral⟩
          rw [List.map_cons, List.nodup_cons] at hdistinct
          rw [List.map_cons, List.forall_mem_cons] at hbound
          have hfree : ∀ other ∈ found.map Prod.fst,
              ((field, number) :: bound).lookup other = none := by
            intro other hother
            have hne : other ≠ field := fun h => hdistinct.1 (h ▸ hother)
            rw [List.lookup_cons, beq_false_of_ne hne]
            exact hbound.2 other hother
          refine members_eq_ok_iff.mpr (.inr ⟨key ++ 34 :: (before ++ 58 :: (between ++ (literal ++
              (behind ++ 125 :: rest)))), before ++ 58 :: (between ++ (literal ++
              (behind ++ 125 :: rest))), behind ++ 125 :: rest, field, number, found, left, ?_, ?_,
              hbound.1, ?_, rfl, ih hdistinct.2 hfree (Nat.le_of_succ_le_succ hleft), rfl⟩)
          · simp only [List.append_assoc, List.cons_append]
            exact nextKey_append hfront
          · exact hkey.read _
          · exact memberValue_append hbefore hbetween hliteral (hothers.stops (.inr rfl))

/-! ## Whole texts -/

theorem length_le_of_distinct {found : Bindings} (hdistinct : (found.map Prod.fst).Nodup) :
    found.length ≤ Field.all.length := by
  rw [← List.length_map (f := Prod.fst)]
  exact (hdistinct.subperm fun field _ => field.mem_all).length_le

theorem skipBlank_eq_nil_iff : skipBlank text = [] ↔ Blank text := by
  rw [skipBlank, List.dropWhile_eq_nil_iff]
  exact forall₂_congr fun _ _ => isBlank_iff

/-- An array or an object is read behind its opening bracket. -/
theorem description_eq_ok_iff {found : Bindings} :
    description text = .ok (found, rest) ↔ ∃ before tail, Blank before ∧
      ((text = before ++ 91 :: tail ∧ elements true Field.all tail = .ok (found, rest)) ∨
        (text = before ++ 123 :: tail ∧
          members true [] Field.all.length tail = .ok (found, rest))) := by
  rw [description]
  constructor
  · intro hread
    split at hread
    · cases hread
    · rename_i byte tail hskip
      rcases exists_blanks hskip with ⟨before, hbefore, rfl⟩
      split_ifs at hread with hbracket hbrace
      · exact ⟨before, tail, hbefore, .inl ⟨hbracket ▸ rfl, hread⟩⟩
      · exact ⟨before, tail, hbefore, .inr ⟨hbrace ▸ rfl, hread⟩⟩
  · rintro ⟨before, tail, hbefore, ⟨rfl, hread⟩ | ⟨rfl, hread⟩⟩
    · rw [skipBlank_append hbefore (by decide)]
      exact hread
    · rw [skipBlank_append hbefore (by decide)]
      exact hread

/-- The reader accepts exactly the texts that describe bindings, and reads the bindings. -/
theorem bindings_eq_ok_iff {found : Bindings} :
    bindings text = .ok found ↔ Describes text found := by
  have hwhole : bindings text = .ok found ↔
      ∃ behind, description text = .ok (found, behind) ∧ Blank behind := by
    rw [bindings]
    cases hread : description text with
    | error fault => simp
    | ok read =>
        rcases read with ⟨all, behind⟩
        simp only [Except.ok.injEq, Prod.mk.injEq]
        split_ifs with hempty
        · rw [List.isEmpty_iff, skipBlank_eq_nil_iff] at hempty
          rw [Except.ok.injEq]
          exact ⟨fun h => ⟨behind, ⟨h, rfl⟩, hempty⟩, fun ⟨_, h, _⟩ => h.1⟩
        · rw [List.isEmpty_iff, skipBlank_eq_nil_iff] at hempty
          refine iff_of_false nofun ?_
          rintro ⟨_, ⟨rfl, rfl⟩, hblank⟩
          exact hempty hblank
  rw [hwhole]
  constructor
  · rintro ⟨behind, hread, hblank⟩
    rcases description_eq_ok_iff.mp hread with ⟨before, tail, hbefore, ⟨rfl, helements⟩ |
      ⟨rfl, hmembers⟩⟩
    · rcases listing_of_elements helements with ⟨inner, numbers, hlisting, hfew, rfl, rfl⟩
      exact .array hbefore hlisting hfew hblank
    · rcases listing_of_members hmembers with ⟨inner, hlisting, hdistinct, -, rfl⟩
      exact .object hbefore hlisting hdistinct hblank
  · rintro (⟨hbefore, hmembers, hdistinct, hblank⟩ | ⟨hbefore, helements, hfew, hblank⟩)
    · exact ⟨_, description_eq_ok_iff.mpr ⟨_, _, hbefore, .inr ⟨rfl, hmembers.members hdistinct
        (fun _ _ => rfl) (length_le_of_distinct hdistinct) _⟩⟩, hblank⟩
    · exact ⟨_, description_eq_ok_iff.mpr ⟨_, _, hbefore, .inl ⟨rfl, helements.elements hfew _⟩⟩,
        hblank⟩

theorem map_fst_zip_sublist {α β : Type} (keys : List α) (values : List β) :
    ((keys.zip values).map Prod.fst).Sublist keys := by
  induction keys generalizing values with
  | nil => exact List.nil_sublist _
  | cons key keys ih =>
      cases values with
      | nil => exact List.nil_sublist _
      | cons value values => exact (ih values).cons_cons key

/-- A settings text binds each field at most once. -/
theorem Describes.distinct {found : Bindings} (h : Describes text found) :
    (found.map Prod.fst).Nodup := by
  cases h with
  | object _ _ hdistinct _ => exact hdistinct
  | array => exact Field.nodup_all.sublist (map_fst_zip_sublist _ _)

/-- A settings text binds its fields in one way only. -/
theorem Describes.unique {found others : Bindings} (h : Describes text found)
    (hothers : Describes text others) : found = others :=
  Except.ok.inj ((bindings_eq_ok_iff.mpr h).symm.trans (bindings_eq_ok_iff.mpr hothers))

/-! ## ASCII -/

theorem Blank.ascii {blanks : Text} (h : Blank blanks) : ∀ byte ∈ blanks, byte < 0x80 := by
  intro byte hbyte
  rcases h byte hbyte with rfl | rfl | rfl | rfl <;> decide

theorem Front.ascii {lead : Text} (h : Front first lead) : ∀ byte ∈ lead, byte < 0x80 := by
  cases h with
  | first hblank => exact hblank.ascii
  | next hbefore hbehind =>
      exact List.forall_mem_append.mpr
        ⟨hbefore.ascii, List.forall_mem_cons.mpr ⟨by decide, hbehind.ascii⟩⟩

theorem Member.ascii {binding : Field × Nat} (h : Member text binding) :
    ∀ byte ∈ text, byte < 0x80 := by
  rcases h with ⟨hkey, hbefore, hbehind, hliteral⟩
  simp only [List.forall_mem_cons, List.forall_mem_append]
  exact ⟨by decide, hkey.ascii (Field.name_ascii _), by decide, hbefore.ascii, by decide,
    hbehind.ascii, hliteral.ascii⟩

/-- A list of ASCII items is ASCII. -/
theorem Listing.ascii {α : Type} {Item : Text → α → Prop} {inner : Text} {items : List α}
    (hitem : ∀ {text item}, Item text item → ∀ byte ∈ text, byte < 0x80)
    (h : Listing Item first inner items) : ∀ byte ∈ inner, byte < 0x80 := by
  induction h with
  | stop hblank => exact hblank.ascii
  | item hfront hhere _ ih =>
      simp only [List.forall_mem_append]
      exact ⟨hfront.ascii, hitem hhere, ih⟩

/-- A settings text is ASCII. -/
theorem Describes.ascii {found : Bindings} (h : Describes text found) :
    ∀ byte ∈ text, byte < 0x80 := by
  rcases h with ⟨hbefore, hmembers, -, hbehind⟩ | ⟨hbefore, helements, -, hbehind⟩
  all_goals simp only [List.forall_mem_cons, List.forall_mem_append]
  · exact ⟨hbefore.ascii, by decide, hmembers.ascii Member.ascii, by decide, hbehind.ascii⟩
  · exact ⟨hbefore.ascii, by decide, helements.ascii Numeral.Spells.ascii, by decide,
      hbehind.ascii⟩

end Settings

end PhraseLedger
