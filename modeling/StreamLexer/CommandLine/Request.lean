/-! What the arguments of the command line ask for. A flag that is not known outweighs everything, the first
such flag is reported; then help outweighs the inputs, of which the last one counts. Without any argument
an interactive session begins. -/
namespace StreamLexer.CommandLine

/-- Where a token table reads from. -/
inductive Input where
  | standard
  | file (name : String)
  deriving DecidableEq, Repr

/-- What is asked for. -/
inductive Request where
  | session
  | help
  | unknownFlag (flag : String)
  | missingInput
  | table (input : Input)
  deriving DecidableEq, Repr

def isDashed (arg : String) : Bool := arg.toList.head? == some '-'

/-- What the arguments so far have settled. -/
structure Choice where
  help : Bool
  input : Option Input
  deriving DecidableEq, Repr

namespace Choice

def none : Choice := ⟨false, .none⟩

/-- Takes one more argument into account, or stops at a flag that is not known. -/
def take (c : Choice) (arg : String) : Except String Choice :=
  if arg = "--help" ∨ arg = "-h" then .ok { c with help := true }
  else if arg = "-" then .ok { c with input := some .standard }
  else if isDashed arg then .error arg
  else .ok { c with input := some (.file arg) }

def request (c : Choice) : Request :=
  if c.help then .help
  else match c.input with
    | some input => .table input
    | .none => .missingInput

end Choice

def Request.ofArgs (args : List String) : Request :=
  if args.isEmpty then .session
  else match args.foldlM Choice.take Choice.none with
    | .ok c => c.request
    | .error flag => .unknownFlag flag

end StreamLexer.CommandLine
