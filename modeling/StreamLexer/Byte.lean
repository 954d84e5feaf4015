/-! Byte classes of the token language, and the character that a byte stands for. Only ASCII bytes
belong to a class. A byte stands for the character of the same code point, whatever its neighbours are:
nothing is ever decoded. -/
namespace StreamLexer.Byte

/-- Whether a byte only separates tokens: space, tab, line feed or carriage return. -/
def isWhitespace (b : UInt8) : Bool := b == 0x20 || b == 0x09 || b == 0x0A || b == 0x0D

/-- Whether a byte may stand in a word: an ASCII letter or the underscore. -/
def isLetter (b : UInt8) : Bool :=
  (0x41 ≤ b && b ≤ 0x5A) || (0x61 ≤ b && b ≤ 0x7A) || b == 0x5F

def isDigit (b : UInt8) : Bool := 0x30 ≤ b && b ≤ 0x39

/-- The line feed, which ends a line. -/
def newline : UInt8 := 0x0A

def toChar (b : UInt8) : Char := Char.ofUInt8 b

/-- The text of a run of bytes, one character a byte. -/
def text (bytes : List UInt8) : String := String.ofList (bytes.map toChar)

@[simp] theorem text_nil : text [] = "" := rfl

theorem text_append (a b : List UInt8) : text (a ++ b) = text a ++ text b := by
  simp [text, String.ofList_append]

end StreamLexer.Byte
