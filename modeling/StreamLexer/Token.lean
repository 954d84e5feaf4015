import StreamLexer.Byte

/-! Tokens: a kind together with the text that was read. Words are identifiers unless they spell a keyword,
numbers keep their digits, eight bytes are symbols of their own, and every other byte is illegal. -/
namespace StreamLexer

/-- The words that are no identifiers. -/
inductive Keyword where
  | function
  | binding
  deriving DecidableEq, Repr

namespace Keyword

def spelling : Keyword → String
  | function => "fn"
  | binding => "let"

/-- The keyword that a word spells, case included. -/
def ofString? (word : String) : Option Keyword :=
  if word = function.spelling then some function
  else if word = binding.spelling then some binding
  else none

/-- A word is read as a keyword exactly when it is that keyword's spelling. -/
theorem ofString?_eq_some_iff {word : String} {k : Keyword} :
    ofString? word = some k ↔ word = k.spelling := by
  constructor
  · intro h
    unfold ofString? at h
    split at h
    · rename_i hw; cases h; exact hw
    · split at h
      · rename_i hw; cases h; exact hw
      · cases h
  · rintro rfl
    cases k <;> decide

end Keyword

inductive Token.Kind where
  | illegal
  | eof
  | identifier
  | int
  | keyword (k : Keyword)
  | assign
  | plus
  | comma
  | semicolon
  | leftParen
  | rightParen
  | leftBrace
  | rightBrace
  deriving DecidableEq, Repr

/-- A kind with the text that was read. -/
structure Token where
  kind : Token.Kind
  literal : String
  deriving DecidableEq, Repr

namespace Token

namespace Kind

/-- The kind of a word: its keyword if it spells one, else an identifier. -/
def ofWord (word : String) : Kind :=
  match Keyword.ofString? word with
  | some k => .keyword k
  | none => .identifier

/-- The kind of a byte that is a token by itself. -/
def ofSymbol? (b : UInt8) : Option Kind :=
  if b = 0x3D then some .assign
  else if b = 0x3B then some .semicolon
  else if b = 0x28 then some .leftParen
  else if b = 0x29 then some .rightParen
  else if b = 0x2C then some .comma
  else if b = 0x2B then some .plus
  else if b = 0x7B then some .leftBrace
  else if b = 0x7D then some .rightBrace
  else none

end Kind

/-- The token that stands for the end of the stream. -/
def eof : Token := ⟨.eof, ""⟩

/-- Whether a token stands for the end of the stream, which its kind alone decides. -/
def isEof (t : Token) : Bool := t.kind == .eof

@[simp] theorem isEof_eof : eof.isEof = true := rfl

/-- The token of a run of letters. -/
def word (literal : String) : Token := ⟨.ofWord literal, literal⟩

def number (literal : String) : Token := ⟨.int, literal⟩

def single (kind : Kind) (b : UInt8) : Token := ⟨kind, Byte.text [b]⟩

end Token

end StreamLexer
