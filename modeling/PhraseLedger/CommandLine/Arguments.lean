import PhraseLedger.Settings.Reader

/-!
# Command-line arguments

Flags are read from left to right.  A flag with a value takes it from behind an equals
sign or from the next argument, which must not look like a flag itself.  No flag but
the one for more log lines may be given twice.

Main definitions:

- Definition {lit}`Arguments.read`: what the arguments ask for.
- Definition {lit}`Arguments.count?`: a number on the command line.
-/

namespace PhraseLedger

/-- The flags that tune the engine. -/
structure Options where
  /-- The file with engine settings. -/
  config : Option String
  /-- Values of single fields. -/
  overrides : Bindings
  /-- Whether everything happens on a single thread. -/
  sequential : Bool
deriving DecidableEq, Repr

namespace Options

/-- No flags at all. -/
def none : Options := ⟨.none, [], false⟩

end Options

/-- What the arguments ask for. -/
structure Arguments where
  options : Options
  /-- How often more log lines were asked for. -/
  verbosity : Nat
deriving DecidableEq, Repr

/-- Why reading the arguments stopped before their end. -/
inductive ArgumentStop where
  /-- An argument is not understood. -/
  | refused
  /-- The help text is asked for. -/
  | help
  /-- The version is asked for. -/
  | version
deriving DecidableEq, Repr

/-- Which flags are understood. -/
inductive FlagSet where
  /-- The flags that tune the engine, and the one for the help text. -/
  | tuning
  /-- All flags of the program. -/
  | program
deriving DecidableEq, Repr

namespace Arguments

/-- No arguments at all. -/
def none : Arguments := ⟨.none, 0⟩

/-- The number that decimal digits stand for, with a plus sign in front of them or
without, if it fits in 64 bits. -/
def count? (text : List Char) : Option Nat :=
  let digits :=
    match text with
    | '+' :: rest => rest
    | _ => text
  if digits.isEmpty || !digits.all Char.isDigit then .none
  else
    let number := digits.foldl (fun number c => number * 10 + (c.toNat - 48)) 0
    if number < Settings.wordLimit then some number else .none

/-- The field that a flag gives a value to. -/
def fieldFlag? (name : List Char) : Option Field :=
  if name = "pool-size".toList then some .poolSize
  else if name = "parallelism".toList then some .parallelism
  else if name = "fragment-workers".toList then some .fragmentWorkers
  else if name = "split-threshold".toList then some .splitThreshold
  else .none

/-- Gives the settings file, which must have a name and must not be given yet. -/
def giveConfig (arguments : Arguments) (value : List Char) : Except ArgumentStop Arguments :=
  if value.isEmpty || arguments.options.config.isSome then .error .refused
  else
    .ok { arguments with
      options := { arguments.options with config := some (String.ofList value) } }

/-- Gives a field a value, which must be a number, and the field must not be given
yet. -/
def giveField (arguments : Arguments) (field : Field) (value : List Char) :
    Except ArgumentStop Arguments :=
  match count? value with
  | .none => .error .refused
  | some number =>
    if (arguments.options.overrides.lookup field).isSome then .error .refused
    else
      .ok { arguments with
        options := { arguments.options with
          overrides := arguments.options.overrides ++ [(field, number)] } }

/-- Gives a flag that takes a value its value, or nothing if no such flag has the
name. -/
def giveValue? (arguments : Arguments) (name value : List Char) :
    Option (Except ArgumentStop Arguments) :=
  if name = "config".toList then some (arguments.giveConfig value)
  else (fieldFlag? name).map fun field => arguments.giveField field value

/-- Whether a flag takes a value. -/
def takesValue (name : List Char) : Bool :=
  name == "config".toList || (fieldFlag? name).isSome

/-- Gives a flag that takes no value. -/
def giveSwitch (flags : FlagSet) (arguments : Arguments) (name : List Char) :
    Except ArgumentStop Arguments :=
  if name = "sequential".toList then
    if arguments.options.sequential then .error .refused
    else .ok { arguments with options := { arguments.options with sequential := true } }
  else if name = "help".toList then .error .help
  else if flags = .program ∧ name = "version".toList then .error .version
  else if flags = .program ∧ name = "verbose".toList then
    .ok { arguments with verbosity := arguments.verbosity + 1 }
  else .error .refused

/-- Gives the flags of single letters that stand behind one hyphen. -/
def giveLetters (flags : FlagSet) : List Char → Arguments → Except ArgumentStop Arguments
  | [], arguments => .ok arguments
  | letter :: rest, arguments =>
    if letter = 'h' then .error .help
    else if flags = .program ∧ letter = 'V' then .error .version
    else if flags = .program ∧ letter = 'v' then
      giveLetters flags rest { arguments with verbosity := arguments.verbosity + 1 }
    else .error .refused

/-- Whether an argument looks like a flag and so cannot be the value of the flag in
front of it.  A single hyphen does not. -/
def looksLikeFlag (argument : List Char) : Bool :=
  match argument with
  | '-' :: _ :: _ => true
  | _ => false

/-- Reads arguments on top of those read before. -/
def readFrom (flags : FlagSet) : List (List Char) → Arguments → Except ArgumentStop Arguments
  | [], arguments => .ok arguments
  | ['-', '-'] :: rest, arguments => if rest.isEmpty then .ok arguments else .error .refused
  | ('-' :: '-' :: body) :: rest, arguments =>
    let name := body.takeWhile (· != '=')
    match body.dropWhile (· != '=') with
    | _ :: value =>
      match arguments.giveValue? name value with
      | .none => .error .refused
      | some (.error stop) => .error stop
      | some (.ok arguments) => readFrom flags rest arguments
    | [] =>
      if takesValue name then
        match rest with
        | [] => .error .refused
        | value :: rest =>
          if looksLikeFlag value then .error .refused
          else
            match arguments.giveValue? name value with
            | .none => .error .refused
            | some (.error stop) => .error stop
            | some (.ok arguments) => readFrom flags rest arguments
      else
        match giveSwitch flags arguments name with
        | .error stop => .error stop
        | .ok arguments => readFrom flags rest arguments
  | ('-' :: letter :: letters) :: rest, arguments =>
    match giveLetters flags (letter :: letters) arguments with
    | .error stop => .error stop
    | .ok arguments => readFrom flags rest arguments
  | _ :: _, _ => .error .refused

/-- What the arguments of the program, without its name, ask for. -/
def read (flags : FlagSet) (arguments : List String) : Except ArgumentStop Arguments :=
  readFrom flags (arguments.map String.toList) .none

end Arguments

end PhraseLedger
