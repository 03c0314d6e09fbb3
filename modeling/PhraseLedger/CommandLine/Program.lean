import PhraseLedger.CommandLine.Options
import PhraseLedger.Dispatch.Workers
import PhraseLedger.Session.Run

/-!
# The program

The program reads its arguments, runs one session over its standard input, and reports
how the session ended.

Main definitions:

- Definition {lit}`Program.begin`: what the arguments lead to.
- Definition {lit}`Program.conclude`: the end of the program after a session.
- Definition {lit}`Program.run`: the program on a whole input.
-/

namespace PhraseLedger

/-- What the arguments lead to. -/
inductive Beginning where
  /-- The arguments are not understood. -/
  | refused
  /-- The help text is asked for. -/
  | help
  /-- The version is asked for. -/
  | version
  /-- The session cannot start. -/
  | failed (trouble : Trouble)
  /-- A session with the given verbosity of the log. -/
  | session (session : Session Workers) (verbosity : Nat)

/-- How the program ends. -/
structure Ending where
  exitCode : Nat
  log : List LogLine
  trouble : Option Trouble

/-- All that the program does. -/
structure Performance where
  output : Text
  ending : Ending

namespace Program

/-- The name and the version of the program. -/
def versionText : String := "ngramdb 0.1.0\n"

/-- The help text. -/
def helpText : String :=
  "Versioned n-gram index answering point-in-time document queries over stdin\n\n"
  ++ "Usage: ngramdb [OPTIONS]\n\n"
  ++ "Options:\n"
  ++ "      --config <CONFIG>                      JSON file with engine settings\n"
  ++ "      --pool-size <POOL_SIZE>                Number of worker threads\n"
  ++ "      --parallelism <PARALLELISM>            Number of pipelines of a batch\n"
  ++ "      --fragment-workers <FRAGMENT_WORKERS>  Number of fragments of a document\n"
  ++ "      --split-threshold <SPLIT_THRESHOLD>    Minimum length of a document to split\n"
  ++ "      --sequential                           Evaluate everything on a single thread\n"
  ++ "  -v, --verbose...                           Increase log verbosity\n"
  ++ "  -h, --help                                 Print help\n"
  ++ "  -V, --version                              Print version\n"

/-- A session with a pool of its own. -/
def openSession (settings : Settings) (schedule : Schedule) (sink : Sink) :
    Except Error (Session Workers) :=
  match settings.validate with
  | .error error => .error error
  | .ok () =>
    match Pool.ofSize settings.poolSize schedule with
    | .error error => .error error
    | .ok pool => Session.start settings pool sink

/-- What the arguments lead to. -/
def begin (environment : Environment) (arguments : List String) : Beginning :=
  match Arguments.read .program arguments with
  | .error .refused => .refused
  | .error .help => .help
  | .error .version => .version
  | .ok found =>
    match found.options.settings environment with
    | .error trouble => .failed trouble
    | .ok settings =>
      match openSession settings Workers.prompt .unlimited with
      | .error cause => .failed ⟨"failed to start the engine", cause⟩
      | .ok session => .session session found.verbosity

/-- Whether a log line is shown under a verbosity. -/
def isShown (verbosity : Nat) (line : LogLine) : Bool :=
  match line.level with
  | .info => 1 ≤ verbosity
  | _ => true

/-- The end of the program after a session.  `tell` puts the measured times in words. -/
def conclude (verbosity : Nat) (tell : Timing → Durations) (outcome : Outcome) : Ending :=
  match outcome.result with
  | .ok summary =>
    ⟨0, (outcome.log ++ summary.report (tell summary.timing)).filter (isShown verbosity), none⟩
  | .error .abort => ⟨101, outcome.log.filter (isShown verbosity), none⟩
  | .error (.error cause) =>
    let rejection : List LogLine :=
      if cause.isInputError then [⟨.error, "rejected input: " ++ cause.message⟩] else []
    ⟨1, (outcome.log ++ rejection).filter (isShown verbosity),
      some ⟨"workload failed", cause⟩⟩

/-- The end of the program when no session takes place. -/
def endingWithout (exitCode : Nat) (trouble : Option Trouble) : Ending :=
  ⟨exitCode, [], trouble⟩

/-- The program on a whole input.  `tell` puts the measured times in words. -/
def run (environment : Environment) (arguments : List String) (input : Text)
    (tell : Timing → Durations) : Performance :=
  match begin environment arguments with
  | .refused => ⟨[], endingWithout 2 none⟩
  | .help => ⟨Text.ofString helpText, endingWithout 0 none⟩
  | .version => ⟨Text.ofString versionText, endingWithout 0 none⟩
  | .failed trouble => ⟨[], endingWithout 1 (some trouble)⟩
  | .session session verbosity =>
    let outcome := session.run Workers.crew input
    ⟨outcome.sink.taken, conclude verbosity tell outcome⟩

end Program

end PhraseLedger
