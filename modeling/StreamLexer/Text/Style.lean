/-! Terminal styles. A painted text stands between the escape sequence of its style and the one that ends
all styles. Without colours the text stands alone. -/
namespace StreamLexer.Text

inductive Style where
  | bold
  | cyan
  | boldRed
  deriving DecidableEq, Repr

namespace Style

/-- The number that selects a style. -/
def code : Style → String
  | bold => "1"
  | cyan => "36"
  | boldRed => "1;31"

def sequence (code : String) : String := "\x1b[" ++ code ++ "m"

def reset : String := sequence "0"

/-- Paints a text if colours are on. -/
def paint (style : Style) (colour : Bool) (text : String) : String :=
  if colour then sequence style.code ++ text ++ reset else text

@[simp] theorem paint_plain (style : Style) (text : String) : style.paint false text = text := rfl

end Style

end StreamLexer.Text
