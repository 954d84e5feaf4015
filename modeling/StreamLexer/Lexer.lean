import StreamLexer.Feed

/-! The streaming lexer. It stands on one byte of its source, or past the last one. A token is read from the
byte under the cursor on: a symbol or an illegal byte is stepped past, a word or a number takes the longest
run of its bytes. A failure of the source cuts off the run that meets it, and the run is lost with it; a token
of one byte is complete before the failure, which is then held back for the next call. Past the end every
call answers with the end of the stream, once a failure that is held back has been told. -/
namespace StreamLexer

/-- Where a lexer stands: on a byte, or past the last one with a failure that it may still have to tell. -/
inductive Cursor where
  | on (byte : UInt8)
  | done (held : Option Error)
  deriving DecidableEq, Repr

def Cursor.weight : Cursor → Nat
  | on _ => 2
  | done (some _) => 1
  | done none => 0

/-- A lexer: the bytes still to come, the cursor, and the journal of all that happened so far. -/
structure Lexer where
  feed : Feed
  cursor : Cursor
  journal : Journal

namespace Lexer

/-- The chunk size of a lexer for which none is chosen. -/
def defaultChunkSize : Nat := 8

/-- Whether the lexer stands past the last byte. A failure may still be held back then. -/
def isExhausted (l : Lexer) : Bool :=
  match l.cursor with
  | .on _ => false
  | .done _ => true

/-- The failures and bytes that are still to come, with the cursor's share. -/
def weight (l : Lexer) : Nat := l.feed.weight + l.cursor.weight

def tell (l : Lexer) (e : Event) : Lexer := { l with journal := l.journal.push (.event e) }

/-- Puts the cursor where a pull leads: on the byte that it brought or past the end. The failure that the
pull met, if any, is handed to the caller. -/
def settle (journal : Journal) (p : Feed.Pulled) : Option Error × Lexer :=
  let journal := journal ++ p.entries
  match p.front with
  | .ok (some b) => (none, ⟨p.feed, .on b, journal⟩)
  | .ok none => (none, tell ⟨p.feed, .done none, journal⟩ .exhausted)
  | .error e => (some e, tell ⟨p.feed, .done none, journal⟩ .exhausted)

/-- Steps past the byte under the cursor. Past the end nothing happens. -/
def advance (l : Lexer) : Option Error × Lexer :=
  match l.cursor with
  | .on _ => settle l.journal l.feed.pull
  | .done _ => (none, l)

/-- Holds a failure back for the next call. -/
def hold : Option Error × Lexer → Lexer
  | (none, l) => l
  | (some e, l) => { l with cursor := .done (some e) }

/-- A lexer that loads up to `chunk` bytes at a time. The first byte is loaded at once, and a failure to do
so is held back. -/
def withChunkSize (source : Source) (chunk : Nat) : Lexer :=
  hold (settle #[] (Feed.ofSource source chunk).pull)

def ofSource (source : Source) : Lexer := withChunkSize source defaultChunkSize

@[simp] theorem weight_tell (l : Lexer) (e : Event) : (l.tell e).weight = l.weight := rfl

theorem weight_settle_lt (journal : Journal) (f : Feed) :
    (settle journal f.pull).2.weight < f.weight + 2 := by
  have hle := f.weight_pull_le
  unfold settle
  simp only
  split
  · rename_i b hb
    have := Feed.weight_pull_lt hb
    simp only [weight, Cursor.weight]
    omega
  · simp only [tell, weight, Cursor.weight]; omega
  · simp only [tell, weight, Cursor.weight]; omega

/-- A failure comes only with the end, so that holding it back adds nothing. -/
theorem weight_hold_settle_lt (journal : Journal) (f : Feed) :
    (hold (settle journal f.pull)).weight < f.weight + 2 := by
  have hle := f.weight_pull_le
  unfold settle
  simp only
  split
  · rename_i b hb
    have := Feed.weight_pull_lt hb
    simp only [hold, weight, Cursor.weight]
    omega
  · simp only [hold, tell, weight, Cursor.weight]; omega
  · simp only [hold, tell, weight, Cursor.weight]; omega

/-- Stepping past a byte leaves less to come. -/
theorem weight_advance_lt {l : Lexer} {b : UInt8} (h : l.cursor = .on b) :
    l.advance.2.weight < l.weight := by
  have := weight_settle_lt l.journal l.feed
  simpa [advance, h, weight, Cursor.weight] using this

theorem weight_hold_advance_lt {l : Lexer} {b : UInt8} (h : l.cursor = .on b) :
    (hold l.advance).weight < l.weight := by
  have := weight_hold_settle_lt l.journal l.feed
  simpa [advance, h, weight, Cursor.weight] using this

/-- Takes the longest run of accepted bytes and appends it to `literal`. A failure takes the place of the
run that it cuts off. -/
def readWhile (accept : UInt8 → Bool) (l : Lexer) (literal : String) : Except Error String × Lexer :=
  match _h : l.cursor with
  | .on b =>
    if accept b then
      match _ha : l.advance with
      | (none, l') => readWhile accept l' (literal.push (Byte.toChar b))
      | (some e, l') => (.error e, l')
    else (.ok literal, l)
  | .done _ => (.ok literal, l)
termination_by l.weight
decreasing_by
  have := weight_advance_lt _h
  rw [_ha] at this
  exact this

/-- Reads the token that begins with the byte `b` under the cursor. -/
def scan (l : Lexer) (b : UInt8) : Except Error Token × Lexer :=
  match Token.Kind.ofSymbol? b with
  | some kind => (.ok (.single kind b), hold l.advance)
  | none =>
    if Byte.isLetter b then
      let (run, l) := l.readWhile Byte.isLetter ""
      (run.map .word, l)
    else if Byte.isDigit b then
      let (run, l) := l.readWhile Byte.isDigit ""
      (run.map .number, l)
    else (.ok (.single .illegal b), hold l.advance)

/-- The next token, or a failure of the source, which is told once. Past the end the answer is the token
that stands for it. -/
def nextToken (l : Lexer) : Except Error Token × Lexer :=
  match l.cursor with
  | .done (some e) => (.error e, { l with cursor := .done none })
  | _ =>
    match l.readWhile Byte.isWhitespace "" with
    | (.error e, l) => (.error e, l)
    | (.ok _, l) =>
      match l.cursor with
      | .done _ => (.ok .eof, l)
      | .on b =>
        match l.scan b with
        | (.error e, l) => (.error e, l)
        | (.ok t, l) => (.ok t, l.tell (.token t))

/-- A run leaves nothing more to come than there was. -/
theorem weight_readWhile_le (accept : UInt8 → Bool) (l : Lexer) (literal : String) :
    (l.readWhile accept literal).2.weight ≤ l.weight := by
  fun_induction readWhile accept l literal with
  | case1 l literal b h hacc l' ha ih =>
    have := weight_advance_lt h
    rw [ha] at this
    simp only at this
    omega
  | case2 l literal b h hacc e l' ha =>
    have := weight_advance_lt h
    rw [ha] at this
    simp only at this ⊢
    omega
  | case3 => exact Nat.le_refl _
  | case4 => exact Nat.le_refl _

/-- A run that accepts the byte under the cursor takes at least that byte. -/
theorem weight_readWhile_lt {accept : UInt8 → Bool} {l : Lexer} {b : UInt8} (literal : String)
    (h : l.cursor = .on b) (ha : accept b = true) :
    (l.readWhile accept literal).2.weight < l.weight := by
  have hlt := weight_advance_lt h
  unfold readWhile
  split
  · rename_i b' h'
    cases h.symm.trans h'
    rw [if_pos ha]
    split
    · rename_i l' hadv
      rw [hadv] at hlt
      exact Nat.lt_of_le_of_lt (weight_readWhile_le accept l' _) hlt
    · rename_i e l' hadv
      rw [hadv] at hlt
      exact hlt
  · rename_i h'
    cases h.symm.trans h'

/-- A run that is cut off took at least one byte. -/
theorem weight_readWhile_error_lt {accept : UInt8 → Bool} {l l' : Lexer} {literal : String} {e : Error}
    (h : l.readWhile accept literal = (.error e, l')) : l'.weight < l.weight := by
  cases hc : l.cursor with
  | done held =>
    unfold readWhile at h
    split at h
    · rename_i h'; cases hc.symm.trans h'
    · cases h
  | on b =>
    by_cases ha : accept b = true
    · have := weight_readWhile_lt literal hc ha
      rwa [h] at this
    · unfold readWhile at h
      split at h
      · rename_i h'
        cases hc.symm.trans h'
        rw [if_neg ha] at h
        cases h
      · cases h

theorem weight_scan_lt {l : Lexer} {b : UInt8} (h : l.cursor = .on b) :
    (l.scan b).2.weight < l.weight := by
  unfold scan
  split
  · exact weight_hold_advance_lt h
  · split
    · rename_i hb
      exact weight_readWhile_lt "" h hb
    · split
      · rename_i hb
        exact weight_readWhile_lt "" h hb
      · exact weight_hold_advance_lt h

/-- Every answer but the end of the stream leaves less to come. -/
theorem weight_nextToken_lt {l l' : Lexer} {r : Except Error Token} (h : l.nextToken = (r, l'))
    (hr : r ≠ .ok .eof) : l'.weight < l.weight := by
  unfold nextToken at h
  split at h
  · rename_i e he
    cases h
    simp only [weight, he, Cursor.weight]
    omega
  · split at h
    · rename_i e l₁ h₁
      cases h
      exact weight_readWhile_error_lt h₁
    · rename_i l₁ h₁
      have hws := weight_readWhile_le Byte.isWhitespace l ""
      rw [h₁] at hws
      simp only at hws
      split at h
      · cases h
        exact absurd rfl hr
      · rename_i b hb
        have hlt := weight_scan_lt hb
        split at h
        · rename_i h₂
          rw [h₂] at hlt
          cases h
          exact Nat.lt_of_lt_of_le hlt hws
        · rename_i h₂
          rw [h₂] at hlt
          cases h
          exact Nat.lt_of_lt_of_le hlt hws

end Lexer

end StreamLexer
