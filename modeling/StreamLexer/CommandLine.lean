import StreamLexer.CommandLine.Request
import StreamLexer.CommandLine.Table
import StreamLexer.Repl

/-! The command line: it turns arguments into an exit status and the texts of the two output channels. All
that it takes from its surroundings is whether to use colours, the standard input, and what opening a file
gives; and its build settles what counting too far does. An input is fetched only when it is asked for, so that
fetching may have effects. -/
namespace StreamLexer.CommandLine

def version : String := "0.1.0"

/-- The variable that selects the log lines to show. -/
def logVariable : String := "MONKEY_LOG"

def usage : String := unlines
  ["Usage: monkey [file | -]",
   "       monkey --help"]

def help : String := unlines
  ["Monkey v" ++ version ++ " - streaming tokenizer",
   "",
   "USAGE:",
   "    monkey [OPTIONS] [file]",
   "",
   "OPTIONS:",
   "    -h, --help      Show this help message",
   "",
   "EXAMPLES:",
   "    monkey script.mk         Show tokens from a file",
   "    cat script.mk | monkey - Show tokens from stdin",
   "    monkey                   Start interactive REPL",
   "",
   "ENVIRONMENT:",
   "    " ++ logVariable ++ "=<filter>      Log filter, e.g. debug or monkey_lang=trace"]

def banner : String := unlines
  ["Monkey v" ++ version ++ " - Token REPL",
   "Press Ctrl-D to quit",
   ""]

/-- What is left of a run: its exit status and what it wrote. -/
structure Outcome where
  code : Nat
  stdout : String
  stderr : String
  deriving DecidableEq, Repr

/-- The ways to the inputs of a run. Going one of them has its effects in `m`. -/
structure Inputs (m : Type → Type) where
  standard : m Source
  openFile : String → m (Except IoError Source)

def failureLine (colour : Bool) (message : String) : String :=
  Text.Style.boldRed.paint colour "error:" ++ " " ++ message ++ "\n"

/-- The outcome of a run that wrote `stdout` and may have failed with a message. -/
def Outcome.of (colour : Bool) (stdout : String) : Option String → Outcome
  | none => ⟨0, stdout, ""⟩
  | some message => ⟨1, stdout, failureLine colour message⟩

def Outcome.ofTranscript (colour : Bool) (t : Transcript) : Outcome :=
  let failure := match t.result with
    | .ok () => none
    | .error e => some e.message
  .of colour (banner ++ t.text) failure

/-- The outcome of showing a source under a name. A failure is told behind `blame`; a program that halts leaves its
notice instead, and a status of its own. -/
def Outcome.ofTable (overflow : Overflow) (colour : Bool) (name blame : String) (source : Source) : Outcome :=
  let (text, close) := Table.ofSource overflow colour name source
  match close with
  | .total _ => .of colour text none
  | .failed e => .of colour text (some (blame ++ e.message))
  | .halted notice => ⟨101, text, notice.text⟩

/-- Does what is asked for. No input is fetched but the one that is asked for. -/
def answerFrom {m : Type → Type} [Monad m] (overflow : Overflow) (colour : Bool) (inputs : Inputs m) :
    Request → m Outcome
  | .session => return .ofTranscript colour (Repl.transcript (← inputs.standard))
  | .help => return ⟨0, help, ""⟩
  | .unknownFlag flag => return ⟨1, "", "Unknown flag: " ++ flag ++ "\n" ++ usage⟩
  | .missingInput => return ⟨1, "", "Error: No input file specified\n" ++ usage⟩
  | .table .standard => return .ofTable overflow colour "<stdin>" "" (← inputs.standard)
  | .table (.file name) => do
    match ← inputs.openFile name with
    | .ok source => return .ofTable overflow colour name (name ++ ": ") source
    | .error e => return .of colour "" (some ("Failed to open file '" ++ name ++ "': " ++ e.text))

/-- What a run takes from its surroundings and from its build. -/
structure Surroundings where
  colour : Bool
  stdin : Source
  openFile : String → Except IoError Source
  overflow : Overflow := .wraps

/-- Inputs that are at hand. -/
def Surroundings.inputs (s : Surroundings) : Inputs Id := ⟨s.stdin, s.openFile⟩

def answer (s : Surroundings) (r : Request) : Outcome := (answerFrom s.overflow s.colour s.inputs r).run

def run (s : Surroundings) (args : List String) : Outcome := answer s (.ofArgs args)

end StreamLexer.CommandLine
