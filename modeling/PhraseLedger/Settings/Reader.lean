import PhraseLedger.Settings.Basic
import PhraseLedger.Settings.Numeral
import PhraseLedger.Settings.Quoted

/-!
# Reading settings

A settings text is a JSON object that binds some of the fields, or a JSON array with
the values of the first fields in their order.  What reads such texts is a parameter of
the engine, which validates the settings that come out.  The reader that is given here
goes through the text from left to right, and the first fault decides what is wrong
with it.

Main definitions:

- Definition {lit}`Settings.Reader`: what reads settings in a text.
- Definition {lit}`Settings.json`: the reader of JSON.
- Definition {lit}`Settings.read`: the settings that a text describes.
-/

namespace PhraseLedger

/-- A field of the settings. -/
inductive Field where
  | poolSize
  | parallelism
  | fragmentWorkers
  | splitThreshold
deriving DecidableEq, Repr

namespace Field

/-- The fields in their order. -/
def all : List Field := [.poolSize, .parallelism, .fragmentWorkers, .splitThreshold]

/-- The name of a field in a settings text. -/
def name : Field → String
  | .poolSize => "pool_size"
  | .parallelism => "parallelism"
  | .fragmentWorkers => "fragment_workers"
  | .splitThreshold => "split_threshold"

/-- The field of a name. -/
def ofName? (name : Text) : Option Field :=
  all.find? fun field => Text.ofString field.name == name

end Field

/-- Values for some of the fields. -/
abbrev Bindings := List (Field × Nat)

namespace Settings

/-- The value of a field. -/
def get (settings : Settings) : Field → Nat
  | .poolSize => settings.poolSize
  | .parallelism => settings.parallelism
  | .fragmentWorkers => settings.fragmentWorkers
  | .splitThreshold => settings.splitThreshold

/-- Gives a field a value. -/
def set (settings : Settings) (field : Field) (value : Nat) : Settings :=
  match field with
  | .poolSize => { settings with poolSize := value }
  | .parallelism => { settings with parallelism := value }
  | .fragmentWorkers => { settings with fragmentWorkers := value }
  | .splitThreshold => { settings with splitThreshold := value }

/-- Gives every bound field its value. -/
def bind (settings : Settings) (bindings : Bindings) : Settings :=
  bindings.foldl (fun settings binding => settings.set binding.1 binding.2) settings

/-! ## Parts of a settings text -/

/-- The space, the tab and the two bytes of line ends. -/
def isBlank (byte : UInt8) : Bool :=
  byte == 32 || byte == 9 || byte == 10 || byte == 13

/-- The text behind the blanks at its front. -/
def skipBlank (text : Text) : Text :=
  text.dropWhile isBlank

/-- What is wrong with a text that must go on with the bytes of `expected`, or
{lit}`mistyped` if it does. -/
def wordFault : Text → Text → SettingsFault
  | [], _ => .mistyped
  | _ :: _, [] => .truncated
  | byte :: expected, found :: rest =>
    if found = byte then wordFault expected rest else .malformed

/-- What is wrong with a value that must be a natural number but starts with neither a
digit nor a sign, or with a value that must be an object or an array. -/
def misfit (text : Text) : SettingsFault :=
  match text with
  | [] => .truncated
  | byte :: rest =>
    if byte = 110 then wordFault (Text.ofString "ull") rest
    else if byte = 116 then wordFault (Text.ofString "rue") rest
    else if byte = 102 then wordFault (Text.ofString "alse") rest
    else if byte = 91 ∨ byte = 123 then .mistyped
    else if byte = Quoted.quote then
      match Quoted.read rest with
      | .error fault => fault
      | .ok _ => .mistyped
    else if byte = 45 ∨ Numeral.isDigit byte then
      match Numeral.read text with
      | .error fault => fault
      | .ok _ => .mistyped
    else .malformed

/-- The natural number at the front of a text, and the text behind it. -/
def natural (text : Text) : Except SettingsFault (Nat × Text) :=
  match text with
  | [] => .error .truncated
  | byte :: _ =>
    if byte = 45 ∨ Numeral.isDigit byte then
      match Numeral.read text with
      | .error fault => .error fault
      | .ok (.natural value, rest) => .ok (value, rest)
      | .ok (.other, _) => .error .mistyped
    else .error (misfit text)

/-! ## Arrays -/

/-- The end of an array all of whose fields were read, and the text behind it. -/
def closeArray (text : Text) : Except SettingsFault Text :=
  match skipBlank text with
  | [] => .error .truncated
  | byte :: rest => if byte = 93 then .ok rest else .error .malformed

/-- The text of the next element of an array, or nothing at its end.  All elements but
the first stand behind a comma. -/
def nextElement (first : Bool) (text : Text) : Except SettingsFault (Option Text) :=
  match skipBlank text with
  | [] => .error .truncated
  | byte :: rest =>
    if byte = 93 then .ok none
    else if first then .ok (some (byte :: rest))
    else if byte ≠ 44 then .error .malformed
    else
      match skipBlank rest with
      | [] => .error .truncated
      | byte :: rest => if byte = 93 then .error .malformed else .ok (some (byte :: rest))

/-- The values of `fields` in the elements of an array, and the text behind the
array. -/
def elements (first : Bool) : List Field → Text → Except SettingsFault (Bindings × Text)
  | [], text => (closeArray text).map fun rest => ([], rest)
  | field :: fields, text =>
    match nextElement first text with
    | .error fault => .error fault
    | .ok none => (closeArray text).map fun rest => ([], rest)
    | .ok (some text) =>
      match natural text with
      | .error fault => .error fault
      | .ok (value, rest) =>
        (elements false fields rest).map fun found => ((field, value) :: found.1, found.2)

/-! ## Objects -/

/-- The text behind the opening quote of the next key of an object, or nothing at its
end together with the text behind it.  All members but the first stand behind a
comma. -/
def nextKey (first : Bool) (text : Text) : Except SettingsFault (Bool × Text) :=
  match skipBlank text with
  | [] => .error .truncated
  | byte :: rest =>
    if byte = 125 then .ok (false, rest)
    else if first then
      if byte = Quoted.quote then .ok (true, rest) else .error .malformed
    else if byte ≠ 44 then .error .malformed
    else
      match skipBlank rest with
      | [] => .error .truncated
      | byte :: rest => if byte = Quoted.quote then .ok (true, rest) else .error .malformed

/-- The value of a member behind its key: a colon and a natural number. -/
def memberValue (text : Text) : Except SettingsFault (Nat × Text) :=
  match skipBlank text with
  | [] => .error .truncated
  | byte :: rest => if byte = 58 then natural (skipBlank rest) else .error .malformed

/-- The members of an object that may still bind `left` more fields than those of
`bound`, and the text behind the object.  A key must name a field that is not bound
yet, so a key that follows when all fields are bound is a fault as such. -/
def members (first : Bool) (bound : Bindings) :
    Nat → Text → Except SettingsFault (Bindings × Text)
  | left, text =>
    match nextKey first text with
    | .error fault => .error fault
    | .ok (false, rest) => .ok ([], rest)
    | .ok (true, rest) =>
      match Quoted.read rest with
      | .error fault => .error fault
      | .ok (name, rest) =>
        match left, Field.ofName? name with
        | left + 1, some field =>
          if (bound.lookup field).isSome then .error .mistyped
          else
            match memberValue rest with
            | .error fault => .error fault
            | .ok (value, rest) =>
              (members false ((field, value) :: bound) left rest).map fun found =>
                ((field, value) :: found.1, found.2)
        | _, _ => .error .mistyped

/-! ## Settings texts -/

/-- The object or array at the front of a text, and the text behind it. -/
def description (text : Text) : Except SettingsFault (Bindings × Text) :=
  match skipBlank text with
  | [] => .error .truncated
  | byte :: rest =>
    if byte = 91 then elements true Field.all rest
    else if byte = 123 then members true [] Field.all.length rest
    else .error (misfit (byte :: rest))

/-- The fields that a settings text binds, in the order in which it binds them. -/
def bindings (text : Text) : Except SettingsFault Bindings :=
  match description text with
  | .error fault => .error fault
  | .ok (found, rest) => if (skipBlank rest).isEmpty then .ok found else .error .malformed

/-- What reads settings in a text.  Fields that the text does not bind keep the values of
the settings that are given. -/
abbrev Reader := Settings → Text → Except SettingsFault Settings

/-- The reader of JSON. -/
def json : Reader :=
  fun defaults text => (bindings text).map defaults.bind

/-- The settings that a text describes on a machine with so many processors; fields
that the text does not bind have their defaults.  `context` names the text in
errors. -/
def read (reader : Reader) (processors : Nat) (context : String) (text : Text) :
    Except Error Settings :=
  match reader (standard processors) text with
  | .error fault => .error (.settings context fault)
  | .ok settings => settings.validate.map fun _ => settings

/-- The name of a settings text that is not in a file. -/
def inlineContext : String := "<inline>"

end Settings

end PhraseLedger
