/-! Failures of reading and writing: their kinds, their causes and the texts that report them. A failure is
known by its kind alone, by its kind with a message of its own, or by what the operating system said. -/
namespace StreamLexer

inductive IoError.Kind where
  | notFound
  | permissionDenied
  | connectionRefused
  | connectionReset
  | connectionAborted
  | notConnected
  | addrInUse
  | addrNotAvailable
  | brokenPipe
  | alreadyExists
  | wouldBlock
  | invalidInput
  | invalidData
  | timedOut
  | writeZero
  | interrupted
  | unsupported
  | unexpectedEof
  | outOfMemory
  | other
  deriving DecidableEq, Repr

/-- The text of a failure of which only the kind is known. -/
def IoError.Kind.text : IoError.Kind → String
  | notFound => "entity not found"
  | permissionDenied => "permission denied"
  | connectionRefused => "connection refused"
  | connectionReset => "connection reset"
  | connectionAborted => "connection aborted"
  | notConnected => "not connected"
  | addrInUse => "address in use"
  | addrNotAvailable => "address not available"
  | brokenPipe => "broken pipe"
  | alreadyExists => "entity already exists"
  | wouldBlock => "operation would block"
  | invalidInput => "invalid input parameter"
  | invalidData => "invalid data"
  | timedOut => "timed out"
  | writeZero => "write zero"
  | interrupted => "operation interrupted"
  | unsupported => "unsupported"
  | unexpectedEof => "unexpected end of file"
  | outOfMemory => "out of memory"
  | other => "other error"

/-- What the operating system may say when a file is opened or read. -/
inductive OsError where
  | noEntry
  | permission
  | notDirectory
  | isDirectory
  | nameTooLong
  deriving DecidableEq, Repr

def OsError.number : OsError → Nat
  | noEntry => 2
  | permission => 13
  | notDirectory => 20
  | isDirectory => 21
  | nameTooLong => 36

/-- The operating system's words for a failure, with its number. -/
def OsError.text (e : OsError) : String :=
  let words := match e with
    | noEntry => "No such file or directory"
    | permission => "Permission denied"
    | notDirectory => "Not a directory"
    | isDirectory => "Is a directory"
    | nameTooLong => "File name too long"
  words ++ " (os error " ++ Nat.repr e.number ++ ")"

/-- A failure of reading or writing. -/
inductive IoError where
  | simple (kind : IoError.Kind)
  | custom (kind : IoError.Kind) (message : String)
  | os (cause : OsError)
  deriving DecidableEq, Repr

namespace IoError

/-- A message, even an empty one, takes the place of the kind's text. -/
def text : IoError → String
  | simple kind => kind.text
  | custom _ message => message
  | os cause => cause.text

/-- Whether the failure asks for the operation to be tried again. -/
def isInterrupted : IoError → Bool
  | simple kind => kind == .interrupted
  | custom kind _ => kind == .interrupted
  | os _ => false

/-- A read that was interrupted, with nothing else to say. -/
def interrupted : IoError := simple .interrupted

@[simp] theorem isInterrupted_interrupted : interrupted.isInterrupted = true := rfl

end IoError

end StreamLexer
