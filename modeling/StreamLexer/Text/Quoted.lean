import StreamLexer.Text.DefaultIgnorable
import StreamLexer.Text.GraphemeExtend
import StreamLexer.Text.Unprintable

/-! Quoted text: a string between double quotes in which every character that would not show by itself is
escaped. Six characters have an escape of their own. A character without a sign of its own, one that would be
drawn into the character before it, and one that a display leaves out are written by their code point in
hexadecimal. All else, the plain space and the apostrophe included, stands for itself. -/
namespace StreamLexer.Text.Quoted

/-- Whether a character is written by its code point, unless it has an escape of its own. -/
def isHidden (c : Char) : Bool :=
  Unprintable.spans.contains c.toNat || GraphemeExtend.isDrawnInto c.toNat ||
    DefaultIgnorable.spans.contains c.toNat

/-- The code point in lower-case hexadecimal, without leading zeros. -/
def codePoint (c : Char) : List Char :=
  ['\\', 'u', '\x7b'] ++ Nat.toDigits 16 c.toNat ++ ['\x7d']

/-- How one character is written between the quotes. -/
def escape (c : Char) : List Char :=
  if c = '\x00' then ['\\', '0']
  else if c = '\t' then ['\\', 't']
  else if c = '\n' then ['\\', 'n']
  else if c = '\r' then ['\\', 'r']
  else if c = '"' then ['\\', '"']
  else if c = '\\' then ['\\', '\\']
  else if isHidden c then codePoint c
  else [c]

def encode (s : List Char) : List Char := s.flatMap escape

@[simp] theorem encode_nil : encode [] = [] := rfl

@[simp] theorem encode_cons (c : Char) (s : List Char) : encode (c :: s) = escape c ++ encode s := rfl

def quote (s : String) : String := String.ofList ('"' :: encode s.toList ++ ['"'])

end StreamLexer.Text.Quoted
