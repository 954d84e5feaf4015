import StreamLexer.CommandLine

/-! The program: it looks at its arguments and its environment, fetches the input that they ask for, and
writes the outcome. An interactive session shows each prompt before it waits for the next line. -/
namespace StreamLexer.Program

/-- A failure of the host in the words of the library. -/
def hostFailure : IO.Error → IoError
  | .noFileOrDirectory _ _ _ => .os .noEntry
  | .permissionDenied _ 13 _ => .os .permission
  | .interrupted _ _ _ => .interrupted
  | e =>
    let causes : List OsError := [.notDirectory, .isDirectory, .nameTooLong]
    match causes.find? fun cause => number e == some cause.number with
    | some cause => .os cause
    | none => .custom .other e.toString
where
  /-- The operating system's number, if the host tells it. -/
  number : IO.Error → Option Nat
    | .inappropriateType _ code _ => some code.toNat
    | .invalidArgument _ code _ => some code.toNat
    | .otherError code _ => some code.toNat
    | .illegalOperation code _ => some code.toNat
    | _ => none

/-- All bytes that can be read, with the failure that ended the reading. -/
partial def fetch (read : USize → IO ByteArray) (steps : Source) : IO Source := do
  match ← (read 8192).toBaseIO with
  | .error e => return (.fail (hostFailure e) :: steps).reverse
  | .ok bytes =>
    if bytes.isEmpty then return steps.reverse
    else fetch read (.data bytes.toList none :: steps)

def fetchFile (name : String) : IO (Except IoError Source) := do
  match ← (IO.FS.Handle.mk name .read).toBaseIO with
  | .error e => return .error (hostFailure e)
  | .ok handle => return .ok (← fetch handle.read [])

/-- Whether colours are to be used: forced on, ruled out, or left to the terminal. -/
def useColour (stdout : IO.FS.Stream) : IO Bool := do
  let forced := match ← IO.getEnv "CLICOLOR_FORCE" with
    | some value => value != "0"
    | none => false
  if forced then return true
  if (← IO.getEnv "NO_COLOR").isSome then return false
  if (← IO.getEnv "CLICOLOR") == some "0" then return false
  stdout.isTty

def perform (stdout : IO.FS.Stream) (actions : List Action) : IO Unit :=
  actions.forM fun
    | .write text => stdout.putStr text
    | .flush => stdout.flush

/-- One read of the input as a step of a source. It asks for a single byte, so that it does not wait for more than the
line that is being entered. -/
def readStep (stdin : IO.FS.Stream) : IO Source.Step := do
  match ← (stdin.read 1).toBaseIO with
  | .error e => return .fail (hostFailure e)
  | .ok bytes => return if bytes.isEmpty then .eof else .data bytes.toList none

/-- Whether no line goes on behind a step. -/
def endsLine : Source.Step → Bool
  | .data bytes _ => bytes.contains Byte.newline
  | .fail e => !e.isInterrupted
  | .eof => true

/-- The steps up to the end of a line, behind some that were read before. -/
partial def readSteps (stdin : IO.FS.Stream) (steps : Source) : IO Source := do
  let step ← readStep stdin
  if endsLine step then return (step :: steps).reverse else readSteps stdin (step :: steps)

/-- Answers line after line of the input. -/
partial def answerLines (stdin stdout : IO.FS.Stream) : IO Ending := do
  match (LineReader.ofSource (← readSteps stdin [])).readLine.1 with
  | .ok (some line) =>
    perform stdout (Repl.answerActions line)
    answerLines stdin stdout
  | .ok none => return .clean
  | .error e => return .failure e

/-- A session on the terminal. All that it shows is shown by the time it ends, but for the report of a failure. -/
def session (stdin stdout : IO.FS.Stream) (colour : Bool) : IO CommandLine.Outcome := do
  stdout.putStr CommandLine.banner
  perform stdout Repl.promptActions
  let last := Repl.closing (← answerLines stdin stdout)
  perform stdout last.actions
  return { CommandLine.Outcome.ofTranscript colour last with stdout := "" }

end StreamLexer.Program

open StreamLexer in
/-- Runs the program with its arguments. -/
def main (args : List String) : IO UInt32 := do
  let stdin ← IO.getStdin
  let stdout ← IO.getStdout
  let stderr ← IO.getStderr
  let colour ← Program.useColour stdout
  let request := CommandLine.Request.ofArgs args
  let outcome ← match request with
    | .session => Program.session stdin stdout colour
    | _ => CommandLine.answerFrom .wraps colour ⟨Program.fetch stdin.read [], Program.fetchFile⟩ request
  stdout.putStr outcome.stdout
  stdout.flush
  stderr.putStr outcome.stderr
  return outcome.code.toUInt32
