import StreamLexer.Token.Printer
import StreamLexer.IoError

/-! The journal of a lexer: every read that it made of its source, with what came of it, and every event
that it has to tell, in the order in which they happened. -/
namespace StreamLexer

/-- What a lexer has to tell about its work. -/
inductive Event where
  | token (token : Token)
  | refilled (bytes : Nat) (drained : Bool)
  | exhausted
  | fault (error : IoError) (buffered : Nat)
  deriving DecidableEq, Repr

namespace Event

def level : Event → String
  | token _ => "TRACE"
  | refilled _ _ => "DEBUG"
  | exhausted => "DEBUG"
  | fault _ _ => "WARN"

def message : Event → String
  | token _ => "token"
  | refilled _ _ => "refilled buffer"
  | exhausted => "byte source exhausted"
  | fault _ _ => "byte source fault"

/-- The particulars of an event, each under its name. -/
def fields : Event → List (String × String)
  | token t => [("kind", t.kind.name), ("literal", t.literal)]
  | refilled bytes drained => [("bytes", Nat.repr bytes), ("drained", if drained then "true" else "false")]
  | exhausted => []
  | fault e buffered => [("error", e.text), ("buffered", Nat.repr buffered)]

end Event

/-- One line of the journal: a read with the room it had, or an event. -/
inductive Entry where
  | read (room : Nat) (outcome : Except IoError (List UInt8))
  | event (event : Event)

namespace Entry

def room? : Entry → Option Nat
  | read room _ => some room
  | event _ => none

def event? : Entry → Option Event
  | read _ _ => none
  | event e => some e

/-- The bytes that a read delivered. -/
def delivered : Entry → List UInt8
  | read _ (.ok bytes) => bytes
  | _ => []

end Entry

/-- The lines of a journal, the oldest first. -/
abbrev Journal := Array Entry

namespace Journal

def rooms (j : Journal) : List Nat := j.toList.filterMap Entry.room?

def events (j : Journal) : List Event := j.toList.filterMap Entry.event?

/-- All bytes that the source has delivered. -/
def delivered (j : Journal) : List UInt8 := j.toList.flatMap Entry.delivered

theorem rooms_append (a b : Journal) : rooms (a ++ b) = rooms a ++ rooms b := by
  simp [rooms]

theorem events_append (a b : Journal) : events (a ++ b) = events a ++ events b := by
  simp [events]

theorem delivered_append (a b : Journal) : delivered (a ++ b) = delivered a ++ delivered b := by
  simp [delivered]

end Journal

end StreamLexer
