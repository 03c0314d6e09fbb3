import PhraseLedger.CommandLine.Arguments
import PhraseLedger.CommandLine.FileTree
import PhraseLedger.Text.Utf8

/-!
# Settings from options

The settings of a run come from the defaults, from a settings file and from flags for
single fields, where each overrides what stands before it.

Main definitions:

- Definition {lit}`Options.settings`: the settings that options ask for.
- Definition {lit}`Trouble.report`: how a trouble is reported.
-/

namespace PhraseLedger

/-- What the program finds around it. -/
structure Environment where
  /-- Number of processors. -/
  processors : Nat
  /-- The bytes of a file, or why it cannot be read. -/
  fileAt : String → Except FileFault Text
  /-- What reads settings in the text of a file. -/
  reader : Settings.Reader

/-- An error, and what the program was doing. -/
structure Trouble where
  context : String
  cause : Error
deriving DecidableEq, Repr

namespace Trouble

/-- A trouble as it is reported at the end of the program: what the program was doing,
and the causes behind it, which are numbered if there is more than one. -/
def report (trouble : Trouble) : String :=
  let causes :=
    match trouble.cause.source? with
    | none => "    " ++ trouble.cause.message ++ "\n"
    | some source => "    0: " ++ trouble.cause.message ++ "\n    1: " ++ source ++ "\n"
  "Error: " ++ trouble.context ++ "\n\nCaused by:\n" ++ causes

end Trouble

namespace Options

/-- The settings file that is read, if there is one. -/
def file? (options : Options) : Option String :=
  if options.sequential then .none else options.config

/-- The wording of a file that is not UTF-8. -/
def notUtf8Message : String := "stream did not contain valid UTF-8"

/-- The settings in a file. -/
def loadFile (environment : Environment) (path : String) : Except Error Settings :=
  match environment.fileAt path with
  | .error fault => .error (.io path fault.message)
  | .ok text =>
    if text.isUtf8 then Settings.read environment.reader environment.processors path text
    else .error (.io path notUtf8Message)

/-- The settings below the flags for single fields. -/
def base (environment : Environment) (options : Options) : Except Trouble Settings :=
  match options.config with
  | .none => .ok (.standard environment.processors)
  | some path =>
    match loadFile environment path with
    | .error cause => .error ⟨"loading " ++ path, cause⟩
    | .ok settings => .ok settings

/-- The settings with the flags for single fields.  Without a settings file and a flag
of its own, the number of slices follows the flag for the number of workers. -/
def override (options : Options) (settings : Settings) : Settings :=
  let settings := settings.bind options.overrides
  match options.overrides.lookup .poolSize with
  | .none => settings
  | some poolSize =>
    if (options.overrides.lookup .parallelism).isNone && options.config.isNone then
      { settings with parallelism := poolSize }
    else settings

/-- The settings that options ask for. -/
def settings (environment : Environment) (options : Options) : Except Trouble Settings :=
  if options.sequential then .ok .sequential
  else
    match options.base environment with
    | .error trouble => .error trouble
    | .ok settings =>
      let settings := options.override settings
      match settings.validate with
      | .error cause => .error ⟨"invalid engine options", cause⟩
      | .ok () => .ok settings

end Options

end PhraseLedger
