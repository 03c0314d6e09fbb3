/-!
# Errors

Every failure that the library reports is an {lit}`Error`: its kind, and what the
kind needs to say.  The wording of all kinds is in {lit}`Error.message`.

Main definitions:

- Definition {lit}`Error.message`: the wording of an error.
- Definition {lit}`Error.isInputError`: whether the input is to blame.
-/

namespace PhraseLedger

/-- Why a settings text is refused, by the first fault met from left to right. -/
inductive SettingsFault where
  /-- The text ends too early. -/
  | truncated
  /-- The text is not JSON. -/
  | malformed
  /-- The text is JSON that does not describe settings. -/
  | mistyped
deriving DecidableEq, Repr

/-- What went wrong. -/
inductive Error where
  /-- An argument breaks its condition. -/
  | invalidArgument (name message : String)
  /-- An operation came when it is not allowed. -/
  | invalidOperation (name : String)
  /-- A line of the input is not a command. -/
  | malformedLine (lineNumber : Nat) (reason : String)
  /-- The input ended too early. -/
  | unexpectedEnd (context : String)
  /-- A worker ended without the result of its job. -/
  | workerLost (job : String)
  /-- Reading or writing failed. -/
  | io (context source : String)
  /-- A settings text is refused. -/
  | settings (context : String) (fault : SettingsFault)
deriving DecidableEq, Repr

namespace SettingsFault

/-- The wording of a fault. -/
def message : SettingsFault → String
  | .truncated => "the text ends too early"
  | .malformed => "the text is not JSON"
  | .mistyped => "the text does not describe engine settings"

end SettingsFault

namespace Error

/-- The wording of an error. -/
def message : Error → String
  | .invalidArgument name message => "invalid argument " ++ name ++ ": " ++ message
  | .invalidOperation name => "invalid operation " ++ name
  | .malformedLine lineNumber reason =>
    "malformed input at line " ++ toString lineNumber ++ ": " ++ reason
  | .unexpectedEnd context => "unexpected end of input: " ++ context
  | .workerLost job => "worker exited without delivering the result of " ++ job
  | .io context source => "IO error for '" ++ context ++ "': " ++ source
  | .settings context fault =>
    "invalid configuration '" ++ context ++ "': " ++ fault.message

/-- Whether the input is to blame rather than the engine. -/
def isInputError : Error → Bool
  | .malformedLine .. => true
  | .unexpectedEnd _ => true
  | _ => false

/-- The wording of the failure behind an error, where there is one. -/
def source? : Error → Option String
  | .io _ source => some source
  | .settings _ fault => some fault.message
  | _ => none

end Error

end PhraseLedger
