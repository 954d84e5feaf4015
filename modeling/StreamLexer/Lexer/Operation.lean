import StreamLexer.Lexer.Drain

/-! Operations on a lexer and the reports of a run of them. A report holds the answer, whether the lexer is
exhausted afterwards, and the lines that the operation added to the journal. -/
namespace StreamLexer

/-- What a caller may ask of a lexer. -/
inductive Operation where
  | next
  | iterate
  | tokenize
  | collect
  deriving DecidableEq, Repr

/-- What a lexer answers: one token or failure, no item, all tokens, or all items. -/
inductive Answer where
  | item (result : Except Error Token)
  | ended
  | tokens (result : Except Error (Array Token))
  | items (results : Array (Except Error Token))

def Operation.perform (l : Lexer) : Operation → Answer × Lexer
  | next =>
    let (result, l) := l.nextToken
    (.item result, l)
  | iterate =>
    match l.next? with
    | (some item, l) => (.item item, l)
    | (none, l) => (.ended, l)
  | tokenize =>
    let (result, l) := l.tokenize
    (.tokens result, l)
  | collect =>
    let (results, l) := l.collect
    (.items results, l)

/-- What is to be said about one step of a run. The first step is the construction of the lexer, which
has no answer. -/
structure Report where
  answer : Option Answer
  exhausted : Bool
  entries : Journal

namespace Lexer

/-- The report of a step that began when the journal had `before` lines. -/
def report (l : Lexer) (before : Nat) (answer : Option Answer) : Report :=
  ⟨answer, l.isExhausted, l.journal.extract before⟩

def run (l : Lexer) : List Operation → List Report
  | [] => []
  | op :: ops =>
    let before := l.journal.size
    let (answer, l) := op.perform l
    l.report before (some answer) :: l.run ops

def session (source : Source) (chunk : Nat) (ops : List Operation) : List Report :=
  let l := withChunkSize source chunk
  l.report 0 none :: l.run ops

end Lexer

end StreamLexer
