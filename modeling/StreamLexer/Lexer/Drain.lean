import StreamLexer.Lexer

/-! Draining a lexer: all tokens up to the end of the stream. One way stops at a failure and gives up the
tokens before it; the other goes on after a failure, which is then one of its items. -/
namespace StreamLexer.Lexer

/-- The next item: a token or a failure, and nothing at the end of the stream. -/
def next? (l : Lexer) : Option (Except Error Token) × Lexer :=
  match l.nextToken with
  | (.ok t, l') => if t.isEof then (none, l') else (some (.ok t), l')
  | (.error e, l') => (some (.error e), l')

theorem weight_next?_lt {l l' : Lexer} {item : Except Error Token} (h : l.next? = (some item, l')) :
    l'.weight < l.weight := by
  unfold next? at h
  split at h
  · rename_i t l₁ h₁
    split at h
    · cases h
    · rename_i ht
      cases h
      apply weight_nextToken_lt h₁
      rintro ⟨⟩
      exact ht rfl
  · rename_i e l₁ h₁
    cases h
    exact weight_nextToken_lt h₁ (by simp)

/-- Appends the tokens that are left to `tokens`, with the end of the stream, or fails. -/
def tokenizeOnto (l : Lexer) (tokens : Array Token) : Except Error (Array Token) × Lexer :=
  match _h : l.nextToken with
  | (.ok t, l') =>
    if _ht : t.isEof then (.ok (tokens.push t), l') else tokenizeOnto l' (tokens.push t)
  | (.error e, l') => (.error e, l')
termination_by l.weight
decreasing_by
  apply weight_nextToken_lt _h
  rintro ⟨⟩
  exact _ht rfl

/-- All tokens that are left, with the end of the stream last, or the failure that came before it. -/
def tokenize (l : Lexer) : Except Error (Array Token) × Lexer := l.tokenizeOnto #[]

def collectOnto (l : Lexer) (items : Array (Except Error Token)) : Array (Except Error Token) × Lexer :=
  match _h : l.next? with
  | (some item, l') => collectOnto l' (items.push item)
  | (none, l') => (items, l')
termination_by l.weight
decreasing_by exact weight_next?_lt _h

/-- All items that are left, failures among them. -/
def collect (l : Lexer) : Array (Except Error Token) × Lexer := l.collectOnto #[]

end StreamLexer.Lexer

namespace StreamLexer

/-- All tokens of a source, with the end of the stream last, or the failure that came before it. -/
def tokenize (source : Source) : Except Error (Array Token) := (Lexer.ofSource source).tokenize.1

end StreamLexer
