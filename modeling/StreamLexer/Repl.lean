import StreamLexer.Lexer.Drain
import StreamLexer.LineReader
import StreamLexer.Sink

/-! The interactive loop: it prompts, reads a line, shows the tokens of that line, and prompts again. What
it does to its output is a transcript, which its input alone decides; on a sink that fails the transcript is
followed up to the failure. Lines are lexed as bytes, each by a lexer of its own. -/
namespace StreamLexer

/-- What the loop does to its output. -/
inductive Action where
  | write (text : String)
  | flush
  deriving DecidableEq, Repr

/-- All that the loop does to its output, and how it ends. -/
structure Transcript where
  actions : List Action
  result : Except Error Unit

namespace Repl

/-- What the loop shows before it reads a line. -/
def prompt : String := ">> "

/-- The prompt is shown at once. -/
def promptActions : List Action := [.write prompt, .flush]

/-- The text of an item: the display form of a token, or the message of an error. -/
def itemText : Except Error Token → String
  | .ok t => t.display
  | .error e => e.message

/-- Shows the tokens of a line, each on a line of its own. -/
def lineActions (line : List UInt8) : List Action :=
  (Lexer.ofSource (.ofBytes line)).collect.1.toList.map fun item => .write (itemText item ++ "\n")

/-- What the loop does with a line: it shows the tokens and prompts again. -/
def answerActions (line : List UInt8) : List Action := lineActions line ++ promptActions

/-- What the loop does behind the last line. The input's end is answered with a line feed; its failure ends the loop. -/
def closing : Ending → Transcript
  | .clean => ⟨[.write "\n", .flush], .ok ()⟩
  | .failure e => ⟨[], .error (.io e)⟩

/-- What the loop does with an input. -/
def transcript (source : Source) : Transcript :=
  let (lines, ending) := source.lines
  let last := closing ending
  { last with actions := promptActions ++ lines.flatMap answerActions ++ last.actions }

end Repl

def Action.perform (s : Sink) : Action → Except IoError Unit × Sink
  | write text => s.writeAll text.toUTF8.toList
  | flush => s.flush

namespace Transcript

/-- Does one thing after the other to a sink, up to the first failure. -/
def performAll (s : Sink) : List Action → Except IoError Unit × Sink
  | [] => (.ok (), s)
  | a :: rest =>
    match a.perform s with
    | (.ok (), s) => performAll s rest
    | (.error e, s) => (.error e, s)

/-- Follows a transcript on a sink. A failure of the sink is an error of its own. -/
def play (t : Transcript) (s : Sink) : Except Error Unit × Sink :=
  match performAll s t.actions with
  | (.ok (), s) => (t.result, s)
  | (.error e, s) => (.error (.io e), s)

def text (t : Transcript) : String :=
  t.actions.foldl (fun s a => match a with | .write text => s ++ text | .flush => s) ""

end Transcript

end StreamLexer
