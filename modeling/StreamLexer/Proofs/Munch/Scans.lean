import Mathlib.Data.List.Basic
import StreamLexer.Proofs.Munch.Next

/-! The rules of the token language, said of the characters that bytes stand for. They look neither at a state
nor at an order of tests: each says which bytes a token may take and what must not stand behind them. Maximal
munch is all that they allow. -/
namespace StreamLexer.Munch

/-- The character of the same code point as a byte. -/
def char (b : UInt8) : Char := Char.ofNat b.toNat

/-- A run of bytes as text. -/
def literal (run : List UInt8) : String := String.ofList (run.map char)

def blanks : List Char := [' ', '\t', '\r', '\n']

/-- The characters that are tokens by themselves, with their kinds. -/
def symbols : List (Char × Token.Kind) :=
  [('=', .assign), ('+', .plus), (',', .comma), (';', .semicolon), ('(', .leftParen), (')', .rightParen),
    ('\x7b', .leftBrace), ('\x7d', .rightBrace)]

def IsWord (b : UInt8) : Prop := (char b).isAlpha = true ∨ char b = '_'

def IsNumber (b : UInt8) : Prop := (char b).isDigit = true

instance (b : UInt8) : Decidable (IsWord b) := inferInstanceAs (Decidable (_ ∨ _))

instance (b : UInt8) : Decidable (IsNumber b) := inferInstanceAs (Decidable (_ = _))

/-- The kind of a word, with the two keywords spelled out. -/
def wordKind (word : String) : Token.Kind :=
  if word = "let" then .keyword .binding else if word = "fn" then .keyword .function else .identifier

/-- The rules. A word and a number end only where a byte of another class or the end follows. -/
inductive Scans : List UInt8 → List Token → Prop
  | nil : Scans [] []
  | blank {b : UInt8} {rest : List UInt8} {ts : List Token} (h : char b ∈ blanks) (tail : Scans rest ts) :
      Scans (b :: rest) ts
  | word {run rest : List UInt8} {ts : List Token} (hne : run ≠ []) (hrun : ∀ b ∈ run, IsWord b)
      (hend : ∀ b ∈ rest.head?, ¬ IsWord b) (tail : Scans rest ts) :
      Scans (run ++ rest) (⟨wordKind (literal run), literal run⟩ :: ts)
  | number {run rest : List UInt8} {ts : List Token} (hne : run ≠ []) (hrun : ∀ b ∈ run, IsNumber b)
      (hend : ∀ b ∈ rest.head?, ¬ IsNumber b) (tail : Scans rest ts) :
      Scans (run ++ rest) (⟨.int, literal run⟩ :: ts)
  | symbol {b : UInt8} {kind : Token.Kind} {rest : List UInt8} {ts : List Token}
      (h : symbols.lookup (char b) = some kind) (tail : Scans rest ts) :
      Scans (b :: rest) (⟨kind, literal [b]⟩ :: ts)
  | illegal {b : UInt8} {rest : List UInt8} {ts : List Token} (hblank : char b ∉ blanks) (hword : ¬ IsWord b)
      (hnumber : ¬ IsNumber b) (hsymbol : symbols.lookup (char b) = none) (tail : Scans rest ts) :
      Scans (b :: rest) (⟨.illegal, literal [b]⟩ :: ts)

/-! The rules and the classes of bytes agree, which is a matter of 256 bytes. -/

theorem forall_byte {P : UInt8 → Prop} (h : ∀ n < 256, P (UInt8.ofNat n)) (b : UInt8) : P b := by
  have hb := h b.toNat b.toNat_lt
  rwa [UInt8.ofNat_toNat] at hb

theorem toChar_eq_char (b : UInt8) : Byte.toChar b = char b :=
  forall_byte (P := fun b => Byte.toChar b = char b) (by decide +kernel) b

theorem text_eq_literal (run : List UInt8) : Byte.text run = literal run := by
  unfold Byte.text literal
  rw [List.map_congr_left (fun b _ => toChar_eq_char b)]

theorem isWhitespace_iff (b : UInt8) : Byte.isWhitespace b = true ↔ char b ∈ blanks :=
  forall_byte (P := fun b => Byte.isWhitespace b = true ↔ char b ∈ blanks) (by decide +kernel) b

theorem isLetter_iff (b : UInt8) : Byte.isLetter b = true ↔ IsWord b :=
  forall_byte (P := fun b => Byte.isLetter b = true ↔ IsWord b) (by decide +kernel) b

theorem isDigit_iff (b : UInt8) : Byte.isDigit b = true ↔ IsNumber b :=
  forall_byte (P := fun b => Byte.isDigit b = true ↔ IsNumber b) (by decide +kernel) b

theorem ofSymbol?_eq_lookup (b : UInt8) : Token.Kind.ofSymbol? b = symbols.lookup (char b) :=
  forall_byte (P := fun b => Token.Kind.ofSymbol? b = symbols.lookup (char b)) (by decide +kernel) b

theorem ofWord_eq_wordKind (word : String) : Token.Kind.ofWord word = wordKind word := by
  unfold Token.Kind.ofWord Keyword.ofString? wordKind Keyword.spelling
  by_cases hlet : word = "let"
  · subst hlet
    rfl
  · split_ifs <;> rfl

/-! The classes exclude each other, so that the first byte decides which rule applies. -/

theorem letter_excludes {b : UInt8} (h : Byte.isLetter b = true) :
    Byte.isWhitespace b = false ∧ Token.Kind.ofSymbol? b = none :=
  forall_byte (P := fun b => Byte.isLetter b = true →
    Byte.isWhitespace b = false ∧ Token.Kind.ofSymbol? b = none) (by decide +kernel) b h

theorem digit_excludes {b : UInt8} (h : Byte.isDigit b = true) :
    Byte.isWhitespace b = false ∧ Token.Kind.ofSymbol? b = none ∧ Byte.isLetter b = false :=
  forall_byte (P := fun b => Byte.isDigit b = true →
    Byte.isWhitespace b = false ∧ Token.Kind.ofSymbol? b = none ∧ Byte.isLetter b = false)
    (by decide +kernel) b h

theorem symbol_excludes {b : UInt8} (h : Token.Kind.ofSymbol? b ≠ none) :
    Byte.isWhitespace b = false :=
  forall_byte (P := fun b => Token.Kind.ofSymbol? b ≠ none → Byte.isWhitespace b = false)
    (by decide +kernel) b h

/-- A run that stops before a byte outside its class, or at the end, is the longest one. -/
theorem run_longest {accept : UInt8 → Bool} {run rest : List UInt8} (hrun : ∀ b ∈ run, accept b = true)
    (hend : ∀ b ∈ rest.head?, ¬ accept b = true) :
    (run ++ rest).takeWhile accept = run ∧ (run ++ rest).dropWhile accept = rest := by
  rw [List.takeWhile_append_of_pos hrun, List.dropWhile_append_of_pos hrun]
  cases rest with
  | nil => simp
  | cons c rest =>
    have hc := hend c rfl
    rw [List.takeWhile_cons_of_neg hc, List.dropWhile_cons_of_neg hc, List.append_nil]
    exact ⟨rfl, rfl⟩

/-- A word is one token, whatever begins behind it. -/
theorem tokens_word {run rest : List UInt8} (hne : run ≠ []) (hrun : ∀ b ∈ run, Byte.isLetter b = true)
    (hend : ∀ b ∈ rest.head?, ¬ Byte.isLetter b = true) :
    tokens (run ++ rest) = .word (Byte.text run) :: tokens rest := by
  obtain ⟨b, run, rfl⟩ := List.exists_cons_of_ne_nil hne
  have hb := hrun b List.mem_cons_self
  obtain ⟨hblank, hsymbol⟩ := letter_excludes hb
  obtain ⟨htake, hdrop⟩ := run_longest (fun c hc => hrun c (List.mem_cons_of_mem b hc)) hend
  rw [List.cons_append, tokens_lead _ hblank]
  simp only [lead, hsymbol, hb, if_true, htake, hdrop]

theorem tokens_number {run rest : List UInt8} (hne : run ≠ []) (hrun : ∀ b ∈ run, Byte.isDigit b = true)
    (hend : ∀ b ∈ rest.head?, ¬ Byte.isDigit b = true) :
    tokens (run ++ rest) = .number (Byte.text run) :: tokens rest := by
  obtain ⟨b, run, rfl⟩ := List.exists_cons_of_ne_nil hne
  have hb := hrun b List.mem_cons_self
  obtain ⟨hblank, hsymbol, hletter⟩ := digit_excludes hb
  obtain ⟨htake, hdrop⟩ := run_longest (fun c hc => hrun c (List.mem_cons_of_mem b hc)) hend
  rw [List.cons_append, tokens_lead _ hblank]
  simp only [lead, hsymbol, hletter, hb, if_true, Bool.false_eq_true, if_false, htake, hdrop]

theorem tokens_symbol {b : UInt8} {kind : Token.Kind} (rest : List UInt8)
    (h : Token.Kind.ofSymbol? b = some kind) : tokens (b :: rest) = .single kind b :: tokens rest := by
  have hblank := symbol_excludes (b := b) (by simp [h])
  rw [tokens_lead _ hblank]
  simp only [lead, h]

theorem tokens_illegal {b : UInt8} (rest : List UInt8) (hblank : Byte.isWhitespace b = false)
    (hsymbol : Token.Kind.ofSymbol? b = none) (hrun : inRun b = false) :
    tokens (b :: rest) = .single .illegal b :: tokens rest := by
  obtain ⟨hletter, hdigit⟩ := Bool.or_eq_false_iff.1 hrun
  rw [tokens_lead _ hblank]
  simp only [lead, hsymbol, hletter, hdigit, Bool.false_eq_true, if_false]

/-- Behind the longest run stands no byte of its class. -/
theorem head?_dropWhile_not (accept : UInt8 → Bool) (bytes : List UInt8) :
    ∀ b ∈ (bytes.dropWhile accept).head?, ¬ accept b = true := by
  intro b hb
  have hnot := List.head?_dropWhile_not accept bytes
  rw [Option.mem_def] at hb
  simpa [hb] using hnot

/-- Maximal munch follows the rules. -/
theorem scans_tokens (bytes : List UInt8) : Scans bytes (tokens bytes) := by
  fun_induction tokens bytes with
  | case1 => exact .nil
  | case2 b bs hblank ih => exact .blank ((isWhitespace_iff b).1 hblank) ih
  | case3 b bs hblank kind hkind ih =>
    rw [Token.single, text_eq_literal]
    rw [ofSymbol?_eq_lookup] at hkind
    exact .symbol hkind ih
  | case4 b bs hblank hkind hletter ih =>
    have hbytes : b :: bs = (b :: bs.takeWhile Byte.isLetter) ++ bs.dropWhile Byte.isLetter := by simp
    rw [Token.word, text_eq_literal, ofWord_eq_wordKind, hbytes]
    refine .word (List.cons_ne_nil _ _) ?_ ?_ ih
    · intro c hc
      rcases List.mem_cons.1 hc with rfl | hc
      · exact (isLetter_iff c).1 hletter
      · exact (isLetter_iff c).1 (List.mem_takeWhile_imp hc)
    · intro c hc
      rw [← isLetter_iff]
      exact head?_dropWhile_not Byte.isLetter bs c hc
  | case5 b bs hblank hkind hletter hdigit ih =>
    have hbytes : b :: bs = (b :: bs.takeWhile Byte.isDigit) ++ bs.dropWhile Byte.isDigit := by simp
    rw [Token.number, text_eq_literal, hbytes]
    refine .number (List.cons_ne_nil _ _) ?_ ?_ ih
    · intro c hc
      rcases List.mem_cons.1 hc with rfl | hc
      · exact (isDigit_iff c).1 hdigit
      · exact (isDigit_iff c).1 (List.mem_takeWhile_imp hc)
    · intro c hc
      rw [← isDigit_iff]
      exact head?_dropWhile_not Byte.isDigit bs c hc
  | case6 b bs hblank hkind hletter hdigit ih =>
    rw [Token.single, text_eq_literal]
    rw [isWhitespace_iff] at hblank
    rw [ofSymbol?_eq_lookup] at hkind
    rw [isLetter_iff] at hletter
    rw [isDigit_iff] at hdigit
    exact .illegal hblank hletter hdigit hkind ih

/-- The rules allow nothing but maximal munch. -/
theorem Scans.eq_tokens {bytes : List UInt8} {ts : List Token} (h : Scans bytes ts) : ts = tokens bytes := by
  induction h with
  | nil => simp [tokens]
  | blank hblank _ ih => rw [tokens_blank _ ((isWhitespace_iff _).2 hblank), ih]
  | word hne hrun hend _ ih =>
    rw [tokens_word hne (fun b hb => (isLetter_iff b).2 (hrun b hb))
      (fun b hb => mt (isLetter_iff b).1 (hend b hb)), ih, Token.word, text_eq_literal, ofWord_eq_wordKind]
  | number hne hrun hend _ ih =>
    rw [tokens_number hne (fun b hb => (isDigit_iff b).2 (hrun b hb))
      (fun b hb => mt (isDigit_iff b).1 (hend b hb)), ih, Token.number, text_eq_literal]
  | symbol h _ ih =>
    rw [← ofSymbol?_eq_lookup] at h
    rw [tokens_symbol _ h, ih, Token.single, text_eq_literal]
  | illegal hblank hword hnumber hsymbol _ ih =>
    rw [← isWhitespace_iff, Bool.not_eq_true] at hblank
    rw [← ofSymbol?_eq_lookup] at hsymbol
    rw [← isLetter_iff, Bool.not_eq_true] at hword
    rw [← isDigit_iff, Bool.not_eq_true] at hnumber
    have hrun := Bool.or_eq_false_iff.2 ⟨hword, hnumber⟩
    rw [tokens_illegal _ hblank hsymbol hrun, ih, Token.single, text_eq_literal]

theorem scans_iff {bytes : List UInt8} {ts : List Token} : Scans bytes ts ↔ ts = tokens bytes := by
  constructor
  · exact Scans.eq_tokens
  · rintro rfl
    exact scans_tokens bytes

end StreamLexer.Munch
