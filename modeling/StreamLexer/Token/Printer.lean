import StreamLexer.Token
import StreamLexer.Text.Quoted

/-! Written forms of tokens. The canonical name of a kind is in upper case; the display form of a token
shows that name and the quoted literal; the detailed form spells out the parts of a kind or a token. -/
namespace StreamLexer

def Keyword.detail : Keyword → String
  | .function => "Fn"
  | .binding => "Let"

namespace Token

namespace Kind

/-- The canonical name, in upper case. -/
def name : Kind → String
  | illegal => "ILLEGAL"
  | eof => "EOF"
  | identifier => "IDENT"
  | int => "INT"
  | keyword .function => "FUNCTION"
  | keyword .binding => "LET"
  | assign => "ASSIGN"
  | plus => "PLUS"
  | comma => "COMMA"
  | semicolon => "SEMICOLON"
  | leftParen => "LPAREN"
  | rightParen => "RPAREN"
  | leftBrace => "LBRACE"
  | rightBrace => "RBRACE"

/-- The detailed form of a kind, which names its keyword. -/
def detail : Kind → String
  | illegal => "Illegal"
  | eof => "Eof"
  | identifier => "Identifier"
  | int => "Int"
  | keyword k => "Keyword(" ++ k.detail ++ ")"
  | assign => "Assign"
  | plus => "Plus"
  | comma => "Comma"
  | semicolon => "Semicolon"
  | leftParen => "LeftParen"
  | rightParen => "RightParen"
  | leftBrace => "LeftBrace"
  | rightBrace => "RightBrace"

def all : List Kind :=
  [illegal, eof, identifier, int, keyword .function, keyword .binding, assign, plus, comma,
    semicolon, leftParen, rightParen, leftBrace, rightBrace]

theorem mem_all (k : Kind) : k ∈ all := by
  cases k with
  | keyword k => cases k <;> decide
  | _ => decide

/-- Reads the detailed form of a kind. -/
def ofDetail? (text : String) : Option Kind := all.find? fun k => k.detail == text

/-- Different kinds have different names. -/
theorem name_injective {j k : Kind} (h : j.name = k.name) : j = k := by
  have key : ∀ j ∈ all, ∀ k ∈ all, j.name = k.name → j = k := by decide
  exact key j (mem_all j) k (mem_all k) h

end Kind

/-- The display form: the name of the kind and the quoted literal. -/
def display (t : Token) : String :=
  "Token<" ++ t.kind.name ++ ": " ++ Text.Quoted.quote t.literal ++ ">"

/-- The detailed form: every part of the token under its name. -/
def detail (t : Token) : String :=
  "Token \x7b token_type: " ++ t.kind.detail ++ ", literal: " ++ Text.Quoted.quote t.literal ++ " \x7d"

end Token

end StreamLexer
