import PhraseLedger.Proofs.Descriptions

/-!
# Readers of settings

What reads settings in a text is a parameter of the engine.  All that is known of it is that it
reads JSON and leaves it to a schema what the values that it reads are taken for.  The schema takes
natural numbers for counts, and for settings it takes objects and arrays of counts: an object may
neither bind a field twice nor bind what is no field, an array binds the first fields, and what
is not bound has its default.  With such a reader the engine accepts exactly the texts that
describe valid settings.

Main definitions:

- Definition {lit}`JsonValue.Spells`: the texts of JSON and their values.
- Definition {lit}`Settings.Schema`: what values are taken for.
- Definition {lit}`Settings.Schema.IsStrict`: what is known of the schema.
- Definition {lit}`Settings.Reader.Follows`: what is known of the reader.

Main results:

- Theorem {lit}`Settings.describes_iff`: settings texts are JSON.
- Theorem {lit}`Settings.Reader.Follows.eq_ok_iff`: what a reader makes of a text.
- Theorem {lit}`Settings.json_follows`: the reader from left to right is such a reader.
- Theorem {lit}`Settings.read_accepts_exactly`: which texts give settings, and which settings.
-/

namespace PhraseLedger

/-! ## JSON -/

/-- The values of JSON.  A number is given by its literal. -/
inductive JsonValue where
  | null
  | boolean (value : Bool)
  | number (literal : Text)
  | string (content : Text)
  | array (items : List JsonValue)
  | object (members : List (Text × JsonValue))

namespace Numeral

/-- Whether a text is made of decimal digits, of at least one. -/
def IsDigits (text : Text) : Prop :=
  text ≠ [] ∧ ∀ byte ∈ text, 48 ≤ byte ∧ byte ≤ 57

/-- The fractions of numerals. -/
inductive Fraction : Text → Prop
  | absent : Fraction []
  | point {places : Text} (digits : IsDigits places) : Fraction (46 :: places)

/-- The exponents of numerals. -/
inductive Exponent : Text → Prop
  | absent : Exponent []
  | power {letter : UInt8} {sign power : Text} (known : letter = 69 ∨ letter = 101)
      (signed : sign = [] ∨ sign = [43] ∨ sign = [45]) (digits : IsDigits power) :
      Exponent (letter :: (sign ++ power))

/-- The numerals of JSON: a minus sign that may be missing, digits without a needless zero in
front, a fraction and an exponent. -/
inductive IsLiteral : Text → Prop
  | mk {sign integer fraction exponent : Text} (signed : sign = [] ∨ sign = [45])
      (digits : IsDigits integer) (leadingZero : integer.head? = some 48 → integer = [48])
      (places : Fraction fraction) (power : Exponent exponent) :
      IsLiteral (sign ++ (integer ++ (fraction ++ exponent)))

/-- The spelling of a natural number is a numeral. -/
theorem Spells.isLiteral {literal : Text} {number : Nat} (h : Spells literal number) :
    IsLiteral literal := by
  have hliteral := IsLiteral.mk (.inl rfl) ⟨h.nonempty, h.digits⟩ h.leadingZero .absent .absent
  simpa using hliteral

/-- A whole text is read as a natural number if it spells the number. -/
theorem read_eq_natural_iff {literal : Text} {number : Nat} :
    read literal = .ok (.natural number, []) ↔ Spells literal number := by
  constructor
  · intro hread
    rcases spells_of_read hread with ⟨spelling, hspelling, hliteral⟩
    rw [List.append_nil] at hliteral
    exact hliteral ▸ hspelling
  · intro h
    have hend : Stops [] := fun _ => nofun
    have hread := h.read hend
    rwa [List.append_nil] at hread

end Numeral

namespace JsonValue

open Settings (Blank Listing)

/-- The members of objects: a name in quotes, a colon and a value. -/
inductive Entry (Value : Text → JsonValue → Prop) : Text → Text × JsonValue → Prop
  | mk {key name before behind text : Text} {value : JsonValue} (quoted : Quoted.Spells key name)
      (blankBefore : Blank before) (blankBehind : Blank behind) (here : Value text value) :
      Entry Value (34 :: (key ++ 34 :: (before ++ 58 :: (behind ++ text)))) (name, value)

/-- The texts of values, without blanks around them. -/
inductive Stands : Text → JsonValue → Prop
  | null : Stands (Text.ofString "null") .null
  | yes : Stands (Text.ofString "true") (.boolean true)
  | no : Stands (Text.ofString "false") (.boolean false)
  | number {literal : Text} (numeral : Numeral.IsLiteral literal) : Stands literal (.number literal)
  | string {spelling content : Text} (quoted : Quoted.Spells spelling content) :
      Stands (34 :: (spelling ++ [34])) (.string content)
  | array {inner : Text} {items : List JsonValue} (elements : Listing Stands true inner items) :
      Stands (91 :: (inner ++ [93])) (.array items)
  | object {inner : Text} {members : List (Text × JsonValue)}
      (entries : Listing (Entry Stands) true inner members) :
      Stands (123 :: (inner ++ [125])) (.object members)

/-- The texts of JSON and their values. -/
inductive Spells : Text → JsonValue → Prop
  | mk {before text behind : Text} {value : JsonValue} (blankBefore : Blank before)
      (here : Stands text value) (blankBehind : Blank behind) :
      Spells (before ++ (text ++ behind)) value

/-- Whether a value is a number without a sign, a fraction and an exponent that fits in a machine
word. -/
def IsCount (value : JsonValue) (number : Nat) : Prop :=
  ∃ literal, value = .number literal ∧ Numeral.Spells literal number

/-- Whether a member of an object gives a field a count. -/
def Gives (member : Text × JsonValue) (binding : Field × Nat) : Prop :=
  member.1 = Text.ofString binding.1.name ∧ member.2.IsCount binding.2

/-- The bindings that values stand for. -/
inductive Binds : JsonValue → Bindings → Prop
  | object {members : List (Text × JsonValue)} {found : Bindings}
      (each : List.Forall₂ Gives members found) (distinct : (members.map Prod.fst).Nodup) :
      Binds (.object members) found
  | array {items : List JsonValue} {numbers : List Nat}
      (each : List.Forall₂ IsCount items numbers) (few : items.length ≤ Field.all.length) :
      Binds (.array items) (Field.all.zip numbers)

end JsonValue

namespace Settings

open JsonValue (IsCount Gives Binds)

/-! ## Lists in step -/

section

variable {α β : Type} {Item : Text → α → Prop} {Other : Text → β → Prop} {R : α → β → Prop}
  {first : Bool} {inner : Text} {items : List α} {others : List β}

theorem exists_forall₂_iff :
    (∃ others, List.Forall₂ R items others) ↔ ∀ item ∈ items, ∃ other, R item other := by
  induction items with
  | nil => exact iff_of_true ⟨[], .nil⟩ fun _ => nofun
  | cons item items ih =>
      rw [List.forall_mem_cons, ← ih]
      constructor
      · rintro ⟨_, _ | ⟨hother, hothers⟩⟩
        exact ⟨⟨_, hother⟩, _, hothers⟩
      · rintro ⟨⟨other, hother⟩, others, hothers⟩
        exact ⟨other :: others, .cons hother hothers⟩

/-- A list whose texts also stand for other items is a list of these. -/
theorem Listing.of_forall₂ (h : Listing Item first inner items)
    (heach : List.Forall₂ R items others)
    (hitem : ∀ text item other, Item text item → R item other → Other text other) :
    Listing Other first inner others := by
  induction h generalizing others with
  | stop hblank =>
      cases heach
      exact .stop hblank
  | item hfront hhere _ ih =>
      cases heach with
      | cons hother hothers => exact .item hfront (hitem _ _ _ hhere hother) (ih hothers)

/-- A list each of whose texts also stands for another item is a list of such items. -/
theorem Listing.exists_forall₂ {S : β → α → Prop} (h : Listing Item first inner items)
    (hitem : ∀ text item, Item text item → ∃ other, S other item ∧ Other text other) :
    ∃ others, List.Forall₂ S others items ∧ Listing Other first inner others := by
  induction h with
  | stop hblank => exact ⟨[], .nil, .stop hblank⟩
  | item hfront hhere _ ih =>
      rcases hitem _ _ hhere with ⟨other, hother, htext⟩
      rcases ih with ⟨others, hothers, hlisting⟩
      exact ⟨other :: others, .cons hother hothers, .item hfront htext hlisting⟩

end

/-! ## Settings texts as JSON -/

/-- The names in members are those of the fields to which they give counts. -/
theorem map_fst_of_gives {members : List (Text × JsonValue)} {found : Bindings}
    (heach : List.Forall₂ Gives members found) :
    members.map Prod.fst = found.map fun binding => Text.ofString binding.1.name := by
  induction heach with
  | nil => rfl
  | cons hgives _ ih => rw [List.map_cons, List.map_cons, hgives.1, ih]

/-- The names in members differ if the fields do. -/
theorem nodup_iff_of_gives {members : List (Text × JsonValue)} {found : Bindings}
    (heach : List.Forall₂ Gives members found) :
    (members.map Prod.fst).Nodup ↔ (found.map Prod.fst).Nodup := by
  have hinjective : Function.Injective fun field : Field => Text.ofString field.name :=
    fun _ _ => Field.ofString_name_inj.mp
  rw [map_fst_of_gives heach, ← List.nodup_map_iff hinjective, List.map_map]
  rfl

/-- A settings text is JSON, and what it describes is what its value binds. -/
theorem describes_iff {text : Text} {found : Bindings} :
    Describes text found ↔ ∃ value, JsonValue.Spells text value ∧ value.Binds found := by
  constructor
  · rintro (@⟨before, inner, behind, found, hbefore, hmembers, hdistinct, hbehind⟩ |
      @⟨before, inner, behind, numbers, hbefore, helements, hfew, hbehind⟩)
    · have hentry : ∀ text binding, Member text binding →
          ∃ member, Gives member binding ∧ JsonValue.Entry JsonValue.Stands text member := by
        rintro _ _
          @⟨key, before, between, literal, field, number, hkey, hbefore, hbetween, hliteral⟩
        exact ⟨(Text.ofString field.name, .number literal), ⟨rfl, literal, rfl, hliteral⟩,
          .mk hkey hbefore hbetween (.number hliteral.isLiteral)⟩
      rcases hmembers.exists_forall₂ hentry with ⟨members, heach, hlisting⟩
      have hspells := JsonValue.Spells.mk hbefore (.object hlisting) hbehind
      refine ⟨.object members, ?_, .object heach ((nodup_iff_of_gives heach).mpr hdistinct)⟩
      simpa using hspells
    · have hitem : ∀ text number, Numeral.Spells text number →
          ∃ item, IsCount item number ∧ JsonValue.Stands text item :=
        fun literal number h => ⟨.number literal, ⟨literal, rfl, h⟩, .number h.isLiteral⟩
      rcases helements.exists_forall₂ hitem with ⟨items, heach, hlisting⟩
      have hspells := JsonValue.Spells.mk hbefore (.array hlisting) hbehind
      refine ⟨.array items, ?_, .array heach (heach.length_eq ▸ hfew)⟩
      simpa using hspells
  · rintro ⟨_, @⟨before, text, behind, value, hbefore, hstands, hbehind⟩,
      (@⟨members, found, heach, hdistinct⟩ | @⟨items, numbers, heach, hfew⟩)⟩
    · have hmember : ∀ text member binding, JsonValue.Entry JsonValue.Stands text member →
          Gives member binding → Member text binding := by
        rintro _ _ ⟨field, number⟩ ⟨hkey, hbefore, hbetween, hvalue⟩ ⟨hname, literal, hliteral,
          hspells⟩
        obtain rfl : _ = Text.ofString field.name := hname
        obtain rfl : _ = JsonValue.number literal := hliteral
        cases hvalue
        exact .mk hkey hbefore hbetween hspells
      cases hstands with
      | @object inner _ hentries =>
          have hdescribes := Describes.object hbefore (hentries.of_forall₂ heach hmember)
            ((nodup_iff_of_gives heach).mp hdistinct) hbehind
          simpa using hdescribes
    · have hnumber : ∀ text item number, JsonValue.Stands text item → IsCount item number →
          Numeral.Spells text number := by
        rintro _ _ number hvalue ⟨literal, rfl, hspells⟩
        cases hvalue
        exact hspells
      cases hstands with
      | @array inner _ helements =>
          have hdescribes := Describes.array hbefore (helements.of_forall₂ heach hnumber)
            (heach.length_eq ▸ hfew) hbehind
          simpa using hdescribes

/-! ## Schemas -/

/-- What values are taken for: which ones for counts, and which ones for settings, where fields
that are not given keep their values in other settings. -/
structure Schema where
  count? : JsonValue → Option Nat
  settings? : Settings → JsonValue → Option Settings

/-- What is known of a schema. -/
structure Schema.IsStrict (schema : Schema) : Prop where
  /-- A count is a natural number that fits in a machine word. -/
  count : ∀ value number, schema.count? value = some number ↔ value.IsCount number
  /-- Settings are given by objects and arrays only. -/
  shape : ∀ defaults value settings, schema.settings? defaults value = some settings →
    (∃ members, value = .object members) ∨ ∃ items, value = .array items
  /-- An object is taken if no name comes twice, each is that of a field, and all values are
  counts. -/
  object : ∀ defaults members, (schema.settings? defaults (.object members)).isSome = true ↔
    (members.map Prod.fst).Nodup ∧ ∀ member ∈ members,
      (∃ field : Field, member.1 = Text.ofString field.name) ∧
        (schema.count? member.2).isSome = true
  /-- A field has the count of the member with its name, or its default. -/
  member : ∀ defaults members settings,
    schema.settings? defaults (.object members) = some settings → ∀ field,
      settings.get field = ((members.lookup (Text.ofString field.name)).bind
        schema.count?).getD (defaults.get field)
  /-- An array is taken if it has not more items than there are fields, and all are counts. -/
  array : ∀ defaults items, (schema.settings? defaults (.array items)).isSome = true ↔
    items.length ≤ Field.all.length ∧ ∀ item ∈ items, (schema.count? item).isSome = true
  /-- A field has the count of the item in its place, or its default. -/
  item : ∀ defaults items settings,
    schema.settings? defaults (.array items) = some settings → ∀ field,
      settings.get field = (((Field.all.zip items).lookup field).bind
        schema.count?).getD (defaults.get field)

namespace Schema

variable {schema : Schema} {defaults settings : Settings}

/-- The member with the name of a field holds the count that the field is bound to. -/
theorem IsStrict.lookup_members (h : schema.IsStrict) {members : List (Text × JsonValue)}
    {found : Bindings} (heach : List.Forall₂ Gives members found) (field : Field) :
    (members.lookup (Text.ofString field.name)).bind schema.count? = found.lookup field := by
  induction heach with
  | nil => rfl
  | @cons member binding _ _ hgives _ ih =>
      rcases member with ⟨name, value⟩
      rcases binding with ⟨bound, number⟩
      obtain rfl : name = Text.ofString bound.name := hgives.1
      rw [List.lookup_cons, List.lookup_cons]
      by_cases hfield : field = bound
      · subst hfield
        simpa using (h.count value number).mpr hgives.2
      · rw [beq_false_of_ne hfield, beq_false_of_ne (mt Field.ofString_name_inj.mp hfield)]
        exact ih

/-- The item in the place of a field is the count that the field is bound to. -/
theorem IsStrict.lookup_items (h : schema.IsStrict) {items : List JsonValue}
    {numbers : List Nat} (heach : List.Forall₂ IsCount items numbers) (fields : List Field)
    (field : Field) :
    ((fields.zip items).lookup field).bind schema.count? = (fields.zip numbers).lookup field := by
  induction heach generalizing fields with
  | nil => rw [List.zip_nil_right, List.zip_nil_right]; rfl
  | @cons value number _ _ hcount _ ih =>
      cases fields with
      | nil => rfl
      | cons bound fields =>
          rw [List.zip_cons_cons, List.zip_cons_cons, List.lookup_cons, List.lookup_cons]
          by_cases hfield : field = bound
          · subst hfield
            simpa using (h.count value number).mpr hcount
          · rw [beq_false_of_ne hfield]
            exact ih fields

/-- The settings that a value is taken for have the fields that it binds. -/
theorem IsStrict.eq_bind (h : schema.IsStrict) {value : JsonValue} {found : Bindings}
    (hbinds : value.Binds found) (hsome : schema.settings? defaults value = some settings) :
    settings = defaults.bind found := by
  refine ext_get fun field => ?_
  cases hbinds with
  | object heach hdistinct =>
      rw [h.member _ _ _ hsome, h.lookup_members heach,
        get_bind_of_nodup ((nodup_iff_of_gives heach).mp hdistinct)]
  | array heach _ =>
      rw [h.item _ _ _ hsome, h.lookup_items heach,
        get_bind_of_nodup (Field.nodup_all.sublist (map_fst_zip_sublist _ _))]

/-- A value is taken for settings if it binds fields. -/
theorem IsStrict.isSome_iff (h : schema.IsStrict) {value : JsonValue} :
    (schema.settings? defaults value).isSome = true ↔ ∃ found, value.Binds found := by
  have hcount : ∀ value, (schema.count? value).isSome = true ↔ ∃ number, value.IsCount number :=
    fun value => by rw [Option.isSome_iff_exists]; exact exists_congr (h.count value)
  constructor
  · intro hsome
    rcases Option.isSome_iff_exists.mp hsome with ⟨settings, hsettings⟩
    rcases h.shape _ _ _ hsettings with ⟨members, rfl⟩ | ⟨items, rfl⟩
    · rcases (h.object _ _).mp hsome with ⟨hdistinct, hmembers⟩
      have hgives : ∀ member ∈ members, ∃ binding, Gives member binding := by
        intro member hmember
        rcases hmembers member hmember with ⟨⟨field, hname⟩, hvalue⟩
        rcases (hcount _).mp hvalue with ⟨number, hnumber⟩
        exact ⟨(field, number), hname, hnumber⟩
      rcases exists_forall₂_iff.mpr hgives with ⟨found, heach⟩
      exact ⟨found, .object heach hdistinct⟩
    · rcases (h.array _ _).mp hsome with ⟨hfew, hitems⟩
      have hnumbers : ∀ item ∈ items, ∃ number, item.IsCount number :=
        fun item hitem => (hcount item).mp (hitems item hitem)
      rcases exists_forall₂_iff.mpr hnumbers with ⟨numbers, heach⟩
      exact ⟨_, .array heach hfew⟩
  · rintro ⟨found, hbinds⟩
    cases hbinds with
    | object heach hdistinct =>
        refine (h.object _ _).mpr ⟨hdistinct, fun member hmember => ?_⟩
        rcases exists_forall₂_iff.mp ⟨_, heach⟩ member hmember with ⟨binding, hname, hnumber⟩
        exact ⟨⟨binding.1, hname⟩, (hcount _).mpr ⟨binding.2, hnumber⟩⟩
    | array heach hfew =>
        refine (h.array _ _).mpr ⟨hfew, fun item hitem => (hcount item).mpr ?_⟩
        exact exists_forall₂_iff.mp ⟨_, heach⟩ item hitem

/-- The settings that a value is taken for. -/
theorem IsStrict.settings?_eq_some_iff (h : schema.IsStrict) {value : JsonValue} :
    schema.settings? defaults value = some settings ↔
      ∃ found, value.Binds found ∧ settings = defaults.bind found := by
  constructor
  · intro hsome
    rcases h.isSome_iff.mp (Option.isSome_of_eq_some hsome) with ⟨found, hbinds⟩
    exact ⟨found, hbinds, h.eq_bind hbinds hsome⟩
  · rintro ⟨found, hbinds, rfl⟩
    rcases Option.isSome_iff_exists.mp (h.isSome_iff.mpr ⟨found, hbinds⟩) with ⟨settings, hsome⟩
    rw [hsome, h.eq_bind hbinds hsome]

end Schema

/-! ## Readers -/

/-- What is known of a reader: it takes a text for settings if the text is JSON, and the schema
takes its value for the settings. -/
def Reader.Follows (reader : Reader) (schema : Schema) : Prop :=
  ∀ defaults text settings, reader defaults text = .ok settings ↔
    ∃ value, JsonValue.Spells text value ∧ schema.settings? defaults value = some settings

/-- A reader that follows a strict schema makes of a text what it describes. -/
theorem Reader.Follows.eq_ok_iff {reader : Reader} {schema : Schema}
    (hreader : reader.Follows schema) (hschema : schema.IsStrict) {defaults settings : Settings}
    {text : Text} :
    reader defaults text = .ok settings ↔
      ∃ found, Describes text found ∧ settings = defaults.bind found := by
  simp only [hreader defaults text settings, hschema.settings?_eq_some_iff, describes_iff]
  constructor
  · rintro ⟨value, hspells, found, hbinds, hsettings⟩
    exact ⟨found, ⟨value, hspells, hbinds⟩, hsettings⟩
  · rintro ⟨found, ⟨value, hspells, hbinds⟩, hsettings⟩
    exact ⟨value, hspells, found, hbinds, hsettings⟩

/-! ## The reader from left to right -/

/-- The settings whose fields have given values. -/
def ofFields (value : Field → Nat) : Settings :=
  ⟨value .poolSize, value .parallelism, value .fragmentWorkers, value .splitThreshold⟩

theorem get_ofFields (value : Field → Nat) (field : Field) :
    (ofFields value).get field = value field := by
  cases field <;> rfl

/-- The natural number that a value is. -/
def plainCount? : JsonValue → Option Nat
  | .number literal =>
    match Numeral.read literal with
    | .ok (.natural number, []) => some number
    | _ => none
  | _ => none

/-- The settings that a value is. -/
def plainSettings? (defaults : Settings) : JsonValue → Option Settings
  | .object members =>
    if (members.map Prod.fst).Nodup ∧ ∀ member ∈ members,
        (Field.ofName? member.1).isSome = true ∧ (plainCount? member.2).isSome = true then
      some (ofFields fun field => ((members.lookup (Text.ofString field.name)).bind
        plainCount?).getD (defaults.get field))
    else none
  | .array items =>
    if items.length ≤ Field.all.length ∧ ∀ item ∈ items, (plainCount? item).isSome = true then
      some (ofFields fun field => (((Field.all.zip items).lookup field).bind
        plainCount?).getD (defaults.get field))
    else none
  | _ => none

/-- The schema of settings. -/
def plainSchema : Schema := ⟨plainCount?, plainSettings?⟩

theorem plainCount?_eq_some_iff {value : JsonValue} {number : Nat} :
    plainCount? value = some number ↔ value.IsCount number := by
  cases value with
  | number literal =>
      have hliteral : plainCount? (.number literal) = some number ↔
          Numeral.read literal = .ok (.natural number, []) := by
        rw [plainCount?]
        split
        · rename_i found hread
          simp [hread]
        · rename_i hother
          refine iff_of_false nofun fun hread => hother number hread
      rw [hliteral, Numeral.read_eq_natural_iff]
      constructor
      · exact fun h => ⟨literal, rfl, h⟩
      · rintro ⟨_, heq, h⟩
        exact JsonValue.number.inj heq ▸ h
  | _ => exact iff_of_false nofun fun ⟨_, heq, _⟩ => nomatch heq

theorem plainSchema_isStrict : plainSchema.IsStrict := by
  constructor
  · exact fun value number => plainCount?_eq_some_iff
  · intro defaults value settings hsome
    cases value with
    | object members => exact .inl ⟨members, rfl⟩
    | array items => exact .inr ⟨items, rfl⟩
    | _ => cases hsome
  · intro defaults members
    have hname : ∀ member : Text × JsonValue, (Field.ofName? member.1).isSome = true ↔
        ∃ field : Field, member.1 = Text.ofString field.name := fun member => by
      simp only [Option.isSome_iff_exists, Field.ofName?_eq_some_iff]
    simp only [plainSchema, plainSettings?, Option.isSome_ite, hname]
  · intro defaults members settings hsome field
    simp only [plainSchema, plainSettings?] at hsome
    split_ifs at hsome
    rw [← Option.some.inj hsome]
    exact get_ofFields _ field
  · intro defaults items
    simp only [plainSchema, plainSettings?, Option.isSome_ite]
  · intro defaults items settings hsome field
    simp only [plainSchema, plainSettings?] at hsome
    split_ifs at hsome
    rw [← Option.some.inj hsome]
    exact get_ofFields _ field

/-- The reader from left to right follows the schema of settings. -/
theorem json_follows : Reader.Follows json plainSchema := by
  intro defaults text settings
  simp only [json, map_eq_ok_iff, bindings_eq_ok_iff, describes_iff,
    plainSchema_isStrict.settings?_eq_some_iff]
  constructor
  · rintro ⟨found, ⟨value, hspells, hbinds⟩, hsettings⟩
    exact ⟨value, hspells, found, hbinds, hsettings.symm⟩
  · rintro ⟨value, hspells, found, hbinds, hsettings⟩
    exact ⟨found, ⟨value, hspells, hbinds⟩, hsettings.symm⟩

/-! ## Settings -/

section

variable {reader : Reader} {schema : Schema}

/-- What is read from a text that describes bindings. -/
theorem Describes.read (hreader : reader.Follows schema) (hschema : schema.IsStrict)
    {text : Text} {found : Bindings} (h : Describes text found) (processors : Nat)
    (context : String) : Settings.read reader processors context text =
      ((standard processors).bind found).validate.map
        fun _ => (standard processors).bind found := by
  rw [Settings.read, (hreader.eq_ok_iff hschema).mpr ⟨found, h, rfl⟩]

/-- Settings are read from a text if it describes bindings with which they are valid. -/
theorem read_eq_ok_iff (hreader : reader.Follows schema) (hschema : schema.IsStrict)
    {processors : Nat} {context : String} {text : Text} {settings : Settings} :
    read reader processors context text = .ok settings ↔
      ∃ found, Describes text found ∧ settings = (standard processors).bind found ∧
        settings.validate = .ok () := by
  constructor
  · intro hread
    cases hloaded : reader (standard processors) text with
    | error fault =>
        rw [Settings.read, hloaded] at hread
        cases hread
    | ok loaded =>
        rw [Settings.read, hloaded] at hread
        rcases map_eq_ok_iff.mp hread with ⟨_, hvalid, rfl⟩
        rcases (hreader.eq_ok_iff hschema).mp hloaded with ⟨found, hdescribes, hsettings⟩
        exact ⟨found, hdescribes, hsettings, hvalid⟩
  · rintro ⟨found, hdescribes, rfl, hvalid⟩
    rw [hdescribes.read hreader hschema, hvalid]
    rfl

/-- With a reader of JSON that follows the schema, settings are read from a text exactly if it
describes bindings with which, and with the defaults of the fields that are not bound, no count is
zero.  The order of the bindings is of no account, nor is the form of the text. -/
theorem read_accepts_exactly (reader : Reader) (schema : Schema)
    (hreader : reader.Follows schema) (hschema : schema.IsStrict) (processors : Nat)
    (context : String) (text : Text) :
    (∀ settings, read reader processors context text = .ok settings ↔
      ∃ found, Describes text found ∧
        (∀ field, settings.get field =
          (found.lookup field).getD ((standard processors).get field)) ∧
        0 < settings.poolSize ∧ 0 < settings.parallelism ∧ 0 < settings.fragmentWorkers) ∧
    ∀ other found others, Describes text found → Describes other others → found.Perm others →
      read reader processors context text = read reader processors context other := by
  constructor
  · intro settings
    rw [read_eq_ok_iff hreader hschema, validate_eq_ok_iff]
    refine exists_congr fun found => and_congr_right fun hfound => and_congr_left' ?_
    constructor
    · rintro rfl field
      exact get_bind_of_nodup hfound.distinct _ field
    · intro hget
      refine ext_get fun field => ?_
      rw [hget field, get_bind_of_nodup hfound.distinct]
  · intro other found others hfound hothers hperm
    rw [hfound.read hreader hschema, hothers.read hreader hschema,
      bind_eq_of_perm hfound.distinct hperm]

/-- An object with an escape in a name, and the array of the same numbers, for the reader from
left to right. -/
theorem read_accepts_exactly_two_forms :
    let object := Text.ofString "\x7b\"parallelism\":2, \"p\\u006fol_size\" : 7\x7d"
    let array := Text.ofString "[7, 2]"
    Reader.Follows json plainSchema ∧ plainSchema.IsStrict ∧
      read json 4 "tuning" object = .ok ⟨7, 2, 4, 65536⟩ ∧
      read json 4 "tuning" object = read json 4 "tuning" array := by
  intro object array
  have hobject : Describes object [(.parallelism, 2), (.poolSize, 7)] :=
    bindings_eq_ok_iff.mp (by decide +kernel)
  have harray : Describes array [(.poolSize, 7), (.parallelism, 2)] :=
    bindings_eq_ok_iff.mp (by decide +kernel)
  have haccepts := read_accepts_exactly json plainSchema json_follows plainSchema_isStrict 4
    "tuning" object
  refine ⟨json_follows, plainSchema_isStrict,
    (haccepts.1 _).mpr ⟨_, hobject, fun field => ?_, by decide⟩,
    haccepts.2 array _ _ hobject harray (.swap _ _ _)⟩
  cases field <;> rfl

end

end Settings

end PhraseLedger
