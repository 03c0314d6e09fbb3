import PhraseLedger.CommandLine.Program

/-!
# The command

The command reads standard input in chunks, hands every line to the session as soon as
it is complete, and writes what the session wrote to standard output.  Log lines and
the report of a failure go to standard error.
-/

namespace PhraseLedger

namespace Console

/-- Number of bytes that are read at once. -/
def chunkSize : USize := 65536

/-! ## Surroundings -/

/-- The fault behind a failure to read a file, by the number that the system gives
it, which comes with either sign. -/
def faultOfNumber (signed : UInt32) (failure : IO.Error) : FileFault :=
  let number := min signed (0 - signed)
  if number = 2 then .missing
  else if number = 13 then .denied
  else if number = 20 then .notDirectory
  else if number = 21 then .isDirectory
  else if number = 36 then .nameTooLong
  else .other (toString failure)

/-- The fault behind a failure to read a file. -/
def fileFault (failure : IO.Error) : FileFault :=
  match failure with
  | .noFileOrDirectory _ number _ => faultOfNumber number failure
  | .permissionDenied _ number _ => faultOfNumber number failure
  | .inappropriateType _ number _ => faultOfNumber number failure
  | .invalidArgument _ number _ => faultOfNumber number failure
  | _ => .other (toString failure)

/-- The bytes of a file, or why it cannot be read. -/
def fileContent (path : String) : IO (Except FileFault Text) := do
  if path.contains (Char.ofNat 0) then return .error .zeroByte
  try
    let bytes ← IO.FS.readBinFile path
    return .ok bytes.toList
  catch failure => return .error (fileFault failure)

/-- The number of processors to assume where the system does not tell it. -/
def assumedProcessors : Nat := 8

/-- The number of processors that the system lists. -/
def processors : IO Nat := do
  match ← fileContent "/proc/cpuinfo" with
  | .error _ => return assumedProcessors
  | .ok listing =>
    let entry := Text.ofString "processor"
    let count := listing.lines.countP fun line => entry.isPrefixOf line
    return if count = 0 then assumedProcessors else count

/-- What the program finds around it; of all files only the settings file is read. -/
def surroundings (arguments : List String) : IO Environment := do
  let file :=
    match Arguments.read .program arguments with
    | .error _ => none
    | .ok found => found.options.file?
  let count ← processors
  match file with
  | none =>
    return {
      processors := count
      fileAt := fun _ => .error .missing
      reader := Settings.json }
  | some path =>
    let content ← fileContent path
    return {
      processors := count
      fileAt := fun asked => if asked = path then content else .error .missing
      reader := Settings.json }

/-! ## Sessions -/

/-- A session under way, with the time of each of its moments. -/
structure Course where
  session : Session Workers
  times : Array Nat

namespace Course

/-- Goes on with the session after a call that lasted from `began` to `ended`.  The call
looked at the clock at its beginning first and at its end from then on. -/
def proceed (course : Course) (session : Session Workers) (began ended : Nat) : Course :=
  match session.timing.moments - course.times.size with
  | 0 => ⟨session, course.times⟩
  | more + 1 => ⟨session, course.times.push began ++ Array.replicate more ended⟩

/-- The clock of a course; what comes behind its last moment is at `now`. -/
def clock (course : Course) (now : Nat) : Clock :=
  fun moment => course.times[moment]?.getD now

end Course

/-- Hands a line to the session and passes on what the session writes. -/
def takeLine (output : IO.FS.Stream) (course : Course) (line : Text) :
    IO (Except Failure Unit × Course) := do
  let began ← IO.monoNanosNow
  let (result, session) ← IO.lazyPure fun _ => course.session.consumeRaw Workers.crew line
  let ended ← IO.monoNanosNow
  let (written, sink) := session.sink.drain
  unless written.isEmpty do
    output.write ⟨written.toArray⟩
    output.flush
  return (result, course.proceed { session with sink := sink } began ended)

/-- Hands lines to the session up to the first one that fails. -/
def takeLines (output : IO.FS.Stream) :
    List Text → Course → IO (Except Failure Unit × Course)
  | [], course => return (.ok (), course)
  | line :: rest, course => do
    match ← takeLine output course line with
    | (.error failure, course) => return (.error failure, course)
    | (.ok (), course) => takeLines output rest course

/-- The outcome of a session that failed. -/
def stopped (failure : Failure) (course : Course) : Outcome × Course :=
  (⟨.error failure, course.session.sink, []⟩, course)

/-- Hands the lines of the input to the session until the input ends or a line fails;
`rest` is the line that is not complete yet. -/
partial def takeInput (input output : IO.FS.Stream) (rest : Text) (course : Course) :
    IO (Outcome × Course) := do
  let chunk ← input.read chunkSize
  if chunk.isEmpty then
    match ← takeLines output rest.lines course with
    | (.error failure, course) => return stopped failure course
    | (.ok (), course) => return (course.session.close, course)
  else
    let (lines, rest) := Text.completeLines (rest ++ chunk.toList)
    match ← takeLines output lines course with
    | (.error failure, course) => return stopped failure course
    | (.ok (), course) => takeInput input output rest course

/-! ## Endings -/

/-- Reports the end of the program. -/
def report (ending : Ending) : IO UInt32 := do
  let errors ← IO.getStderr
  for line in ending.log do
    errors.putStrLn (line.level.name ++ " " ++ line.text)
  match ending.trouble with
  | none => pure ()
  | some trouble => errors.putStr trouble.report
  return UInt32.ofNat ending.exitCode

/-- The report on arguments that are not understood. -/
def usageText : String :=
  "error: these arguments are not understood\n\n"
  ++ "Usage: ngramdb [OPTIONS]\n\nFor more information, try '--help'.\n"

end Console

end PhraseLedger

open PhraseLedger in
/-- The command on its arguments. -/
def main (arguments : List String) : IO UInt32 := do
  let output ← IO.getStdout
  match Program.begin (← Console.surroundings arguments) arguments with
  | .refused =>
    (← IO.getStderr).putStr Console.usageText
    return 2
  | .help =>
    output.putStr Program.helpText
    return 0
  | .version =>
    output.putStr Program.versionText
    return 0
  | .failed trouble => Console.report (Program.endingWithout 1 (some trouble))
  | .session session verbosity =>
    let (outcome, course) ← Console.takeInput (← IO.getStdin) output [] ⟨session, #[]⟩
    let clock := course.clock (← IO.monoNanosNow)
    Console.report (Program.conclude verbosity (Timing.durations clock) outcome)
