import StreamLexer.IoError

/-! The errors that reach a caller. A lexer fails only when its source does; lines are read and output is
written with input and output errors of their own. -/
namespace StreamLexer

/-- An error with the failure that caused it. -/
inductive Error where
  | sourceFault (cause : IoError)
  | io (cause : IoError)
  deriving DecidableEq, Repr

namespace Error

def cause : Error → IoError
  | sourceFault e => e
  | io e => e

def kind : Error → String
  | sourceFault _ => "Source Fault"
  | io _ => "I/O Error"

def message : Error → String
  | sourceFault e => "Source Fault: failed to read from byte source: " ++ e.text
  | io e => "I/O Error: " ++ e.text

/-- Whether the source of a lexer failed. -/
def isSourceFault : Error → Bool
  | sourceFault _ => true
  | io _ => false

end Error

end StreamLexer
