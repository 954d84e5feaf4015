import StreamLexer.CommandLine.Counter
import StreamLexer.Lexer.Drain
import StreamLexer.Text.Column
import StreamLexer.Text.Style

/-! The token table of a source: a headline with its name, a rule, a numbered line for every token, and at
the end another rule and the number of tokens. A failure of the source ends the table where it is met. The
rows are numbered apart from the counter that the last line shows, and if that one halts the program, it does so
behind the row that it could not count. -/
namespace StreamLexer.CommandLine

/-- Lines of text, each ended by a line feed. -/
def unlines (lines : List String) : String := lines.foldl (fun s line => s ++ line ++ "\n") ""

namespace Table

def header (colour : Bool) (name : String) : String :=
  Text.Style.bold.paint colour "Tokens for" ++ " '" ++ name ++ "':"

def rule : String := String.ofList (List.replicate 60 '=')

/-- The row of a token: its number, the name of its kind, and its literal in quotes. The name is filled up
inside its colour. -/
def row (colour : Bool) (index : Nat) (t : Token) : String :=
  Text.Column.right 4 (Nat.repr index) ++ ": " ++
    Text.Style.cyan.paint colour (Text.Column.left 20 t.kind.name) ++ " | " ++ Text.Quoted.quote t.literal

def total (count : Int32) : String := "Total tokens: " ++ toString count

/-- How a table ends: with all tokens counted, with a failure of the source, or with the program halted. -/
inductive Close where
  | total (count : Int32)
  | failed (error : Error)
  | halted (notice : Notice)

/-- The lines below the last row. -/
def Close.lines : Close → List String
  | total count => [rule, Table.total count]
  | failed _ => []
  | halted _ => []

/-- Appends the rows of some items to `rows`, up to the end of the table. The first of them has the number `index`, and
`count` rows are counted so far. A row is shown before it is counted. -/
def rowsOnto (overflow : Overflow) (colour : Bool) (rows : Array String) (index : USize) (count : Int32) :
    List (Except Error Token) → Array String × Close
  | [] => (rows, .total count)
  | .error e :: _ => (rows, .failed e)
  | .ok t :: items =>
    let rows := rows.push (row colour index.toNat t)
    match overflow.next count with
    | .ok count => rowsOnto overflow colour rows (index + 1) count items
    | .error notice => (rows, .halted notice)

/-- The text of the table of a source, and how the table ends. -/
def ofSource (overflow : Overflow) (colour : Bool) (name : String) (source : Source) : String × Close :=
  let items := (Lexer.ofSource source).collect.1.toList
  let (rows, close) := rowsOnto overflow colour #[] 0 0 items
  (unlines (header colour name :: rule :: (rows.toList ++ close.lines)), close)

end Table

end StreamLexer.CommandLine
