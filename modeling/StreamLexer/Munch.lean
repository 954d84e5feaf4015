import StreamLexer.Token

/-! Maximal munch on a flat byte string: blanks are dropped, a word or a number is the longest run of its
bytes, and every other byte is a token by itself. There is no buffer and no lookahead here, so this is the
measure of what a lexer must return. -/
namespace StreamLexer.Munch

/-- The tokens of a byte string, without the end of the stream. -/
def tokens : List UInt8 → List Token
  | [] => []
  | b :: bs =>
    if Byte.isWhitespace b then tokens bs
    else
      match Token.Kind.ofSymbol? b with
      | some kind => .single kind b :: tokens bs
      | none =>
        if Byte.isLetter b then
          .word (Byte.text (b :: bs.takeWhile Byte.isLetter)) :: tokens (bs.dropWhile Byte.isLetter)
        else if Byte.isDigit b then
          .number (Byte.text (b :: bs.takeWhile Byte.isDigit)) :: tokens (bs.dropWhile Byte.isDigit)
        else .single .illegal b :: tokens bs
termination_by bytes => bytes.length
decreasing_by
  all_goals
    try have := (List.dropWhile_sublist (l := bs) Byte.isLetter).length_le
    try have := (List.dropWhile_sublist (l := bs) Byte.isDigit).length_le
    simp only [List.length_cons]
    omega

end StreamLexer.Munch
