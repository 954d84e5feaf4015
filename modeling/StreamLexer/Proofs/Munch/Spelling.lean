import StreamLexer.Proofs.Munch.Scans

/-! How tokens are spelled. A token is well formed when its text is one that its kind may have, and every well
formed token has one spelling in bytes, one byte a character. What the rules of the language make a token of is
exactly what spells a well formed one. -/
namespace StreamLexer

namespace Token

/-- Tokens whose text fits their kind. -/
inductive WellFormed : Token → Prop
  | binding : WellFormed ⟨.keyword .binding, "let"⟩
  | function : WellFormed ⟨.keyword .function, "fn"⟩
  | identifier {word : String} (hne : word ≠ "") (hword : ∀ c ∈ word.toList, c.isAlpha = true ∨ c = '_')
      (hlet : word ≠ "let") (hfn : word ≠ "fn") : WellFormed ⟨.identifier, word⟩
  | number {digits : String} (hne : digits ≠ "") (hdigits : ∀ c ∈ digits.toList, c.isDigit = true) :
      WellFormed ⟨.int, digits⟩
  | symbol {c : Char} {kind : Kind} (h : Munch.symbols.lookup c = some kind) :
      WellFormed ⟨kind, String.singleton c⟩
  | illegal {c : Char} (hlt : c.toNat < 256) (hblank : c ∉ Munch.blanks)
      (hword : ¬ (c.isAlpha = true ∨ c = '_')) (hdigit : ¬ c.isDigit = true)
      (hsymbol : Munch.symbols.lookup c = none) : WellFormed ⟨.illegal, String.singleton c⟩

namespace Kind

/-- Whether a kind is that of words, keywords included. -/
def isWord : Kind → Bool
  | identifier => true
  | keyword _ => true
  | _ => false

/-- Whether tokens of two kinds would run together without blanks between them. -/
def Clings (k k' : Kind) : Prop :=
  (k = .int ∧ k' = .int) ∨ (k.isWord = true ∧ k'.isWord = true)

instance (k k' : Kind) : Decidable (Clings k k') := inferInstanceAs (Decidable (_ ∨ _))

/-- Whether a byte would go on with a token of a kind. -/
def Continues (k : Kind) (b : UInt8) : Prop :=
  (k = .int ∧ Munch.IsNumber b) ∨ (k.isWord = true ∧ Munch.IsWord b)

end Kind

end Token

namespace Munch

/-- The byte of the same code point as a character. -/
def toByte (c : Char) : UInt8 := UInt8.ofNat c.toNat

/-- A text as bytes, one a character. -/
def toBytes (text : String) : List UInt8 := text.toList.map toByte

theorem toByte_char (b : UInt8) : toByte (char b) = b :=
  forall_byte (P := fun b => toByte (char b) = b) (by decide +kernel) b

theorem char_toByte {c : Char} (h : c.toNat < 256) : char (toByte c) = c := by
  rw [char, toByte, UInt8.toNat_ofNat', Nat.mod_eq_of_lt h, Char.ofNat_toNat]

theorem toNat_char_lt (b : UInt8) : (char b).toNat < 256 :=
  forall_byte (P := fun b => (char b).toNat < 256) (by decide +kernel) b

theorem toBytes_literal (run : List UInt8) : toBytes (literal run) = run := by
  simp [toBytes, literal, Function.comp_def, toByte_char]

theorem literal_toBytes {text : String} (h : ∀ c ∈ text.toList, c.toNat < 256) : literal (toBytes text) = text := by
  have hid : text.toList.map (char ∘ toByte) = text.toList := by
    conv_rhs => rw [← List.map_id text.toList]
    exact List.map_congr_left fun c hc => char_toByte (h c hc)
  rw [literal, toBytes, List.map_map, hid, String.ofList_toList]

/-- A token takes the bytes of its text. -/
theorem toBytes_lead (b : UInt8) (bs : List UInt8) : b :: bs = toBytes (lead b bs).1.literal ++ (lead b bs).2 := by
  unfold lead
  split
  · simp [Token.single, text_eq_literal, toBytes_literal]
  · split_ifs
    · simp [Token.word, text_eq_literal, toBytes_literal]
    · simp [Token.number, text_eq_literal, toBytes_literal]
    · simp [Token.single, text_eq_literal, toBytes_literal]

/-! All classes but the illegal one are classes of characters below 256. -/

theorem toNat_lt_of_word {c : Char} (h : c.isAlpha = true ∨ c = '_') : c.toNat < 256 := by
  obtain h | rfl := h
  · obtain hupper | hlower := Bool.or_eq_true_iff.1 h
    · have hle : c.val ≤ 'Z'.val := (of_decide_eq_true hupper).2
      exact Nat.lt_of_le_of_lt (UInt32.le_iff_toNat_le.1 hle) (by decide)
    · have hle : c.val ≤ 'z'.val := of_decide_eq_true (Bool.and_eq_true_iff.1 hlower).2
      exact Nat.lt_of_le_of_lt (UInt32.le_iff_toNat_le.1 hle) (by decide)
  · decide

theorem toNat_lt_of_digit {c : Char} (h : c.isDigit = true) : c.toNat < 256 := by
  have hle : c.val ≤ '9'.val := of_decide_eq_true (Bool.and_eq_true_iff.1 h).2
  exact Nat.lt_of_le_of_lt (UInt32.le_iff_toNat_le.1 hle) (by decide)

theorem toNat_lt_of_symbol {c : Char} {kind : Token.Kind} (h : symbols.lookup c = some kind) : c.toNat < 256 := by
  have hall : ∀ p ∈ symbols, p.1.toNat < 256 := by decide
  obtain ⟨front, back, hsplit, -⟩ := List.lookup_eq_some_iff.1 h
  exact hall (c, kind) (by simp [hsplit])

/-! The classes of bytes exclude each other. -/

theorem isWord_excludes {b : UInt8} (h : IsWord b) : char b ∉ blanks ∧ ¬ IsNumber b :=
  forall_byte (P := fun b => IsWord b → char b ∉ blanks ∧ ¬ IsNumber b) (by decide +kernel) b h

theorem isNumber_excludes {b : UInt8} (h : IsNumber b) : char b ∉ blanks :=
  forall_byte (P := fun b => IsNumber b → char b ∉ blanks) (by decide +kernel) b h

theorem lookup_excludes {b : UInt8} {kind : Token.Kind} (h : symbols.lookup (char b) = some kind) :
    (char b ∉ blanks ∧ ¬ IsWord b ∧ ¬ IsNumber b) ∧ kind.isWord = false ∧ kind ≠ .int := by
  have hall := forall_byte (P := fun b => ∀ k ∈ symbols.lookup (char b),
    (char b ∉ blanks ∧ ¬ IsWord b ∧ ¬ IsNumber b) ∧ k.isWord = false ∧ k ≠ .int) (by decide +kernel) b
  exact hall kind h

/-- The token that a run of bytes makes, if nothing behind the run goes on with it. -/
inductive Spells : List UInt8 → Token → Prop
  | word {run : List UInt8} (hne : run ≠ []) (hrun : ∀ b ∈ run, IsWord b) :
      Spells run ⟨wordKind (literal run), literal run⟩
  | number {run : List UInt8} (hne : run ≠ []) (hrun : ∀ b ∈ run, IsNumber b) :
      Spells run ⟨.int, literal run⟩
  | symbol {b : UInt8} {kind : Token.Kind} (h : symbols.lookup (char b) = some kind) :
      Spells [b] ⟨kind, literal [b]⟩
  | illegal {b : UInt8} (hblank : char b ∉ blanks) (hword : ¬ IsWord b) (hnumber : ¬ IsNumber b)
      (hsymbol : symbols.lookup (char b) = none) : Spells [b] ⟨.illegal, literal [b]⟩

theorem isWord_wordKind (word : String) : (wordKind word).isWord = true := by
  unfold wordKind
  split
  · rfl
  · split <;> rfl

theorem wordKind_ne_int (word : String) : wordKind word ≠ .int := by
  intro h
  have := isWord_wordKind word
  rw [h] at this
  cases this

theorem literal_singleton (b : UInt8) : literal [b] = String.singleton (char b) := by
  simp [literal]

theorem Spells.literal_eq {run : List UInt8} {t : Token} (h : Spells run t) : t.literal = literal run := by
  cases h <;> rfl

/-- What a run spells is well formed. -/
theorem Spells.wellFormed {run : List UInt8} {t : Token} (h : Spells run t) : t.WellFormed := by
  have hchars : ∀ {P : Char → Prop}, (∀ b ∈ run, P (char b)) → ∀ c ∈ (literal run).toList, P c := by
    intro P hall c hc
    simp only [literal, String.toList_ofList, List.mem_map] at hc
    obtain ⟨b, hb, rfl⟩ := hc
    exact hall b hb
  have hnonempty : run ≠ [] → literal run ≠ "" := by
    intro hne heq
    have hlen := congrArg String.length heq
    simp [literal, hne] at hlen
  cases h with
  | word hne hrun =>
    unfold wordKind
    split
    · rename_i hlet
      rw [hlet]
      exact .binding
    · rename_i hlet
      split
      · rename_i hfn
        rw [hfn]
        exact .function
      · rename_i hfn
        exact .identifier (hnonempty hne) (hchars hrun) hlet hfn
  | number hne hrun => exact .number (hnonempty hne) (hchars hrun)
  | symbol h =>
    rw [literal_singleton]
    exact .symbol h
  | @illegal b hblank hword hnumber hsymbol =>
    rw [literal_singleton]
    exact .illegal (toNat_char_lt b) hblank hword hnumber hsymbol

/-- What holds of the characters of a text holds of what its bytes stand for. -/
theorem forall_toBytes {P : Char → Prop} {text : String} (hlt : ∀ c ∈ text.toList, c.toNat < 256)
    (h : ∀ c ∈ text.toList, P c) : ∀ b ∈ toBytes text, P (char b) := by
  intro b hb
  obtain ⟨c, hc, rfl⟩ := List.mem_map.1 hb
  rw [char_toByte (hlt c hc)]
  exact h c hc

theorem toBytes_ne_nil {text : String} (h : text ≠ "") : toBytes text ≠ [] := by
  simpa [toBytes] using h

theorem toBytes_singleton (c : Char) : toBytes (String.singleton c) = [toByte c] := by
  simp [toBytes]

theorem spells_word {word : String} (hne : word ≠ "") (hword : ∀ c ∈ word.toList, c.isAlpha = true ∨ c = '_') :
    Spells (toBytes word) ⟨wordKind word, word⟩ := by
  have hlt : ∀ c ∈ word.toList, c.toNat < 256 := fun c hc => toNat_lt_of_word (hword c hc)
  have h := Spells.word (toBytes_ne_nil hne) (forall_toBytes hlt hword)
  rwa [literal_toBytes hlt] at h

/-- A well formed token is spelled by its text. -/
theorem spells_toBytes {t : Token} (h : t.WellFormed) : Spells (toBytes t.literal) t := by
  cases h with
  | binding =>
    have h : Spells (toBytes "let") ⟨wordKind "let", "let"⟩ := spells_word (by decide) (by simp)
    exact h
  | function =>
    have h : Spells (toBytes "fn") ⟨wordKind "fn", "fn"⟩ := spells_word (by decide) (by simp)
    exact h
  | identifier hne hword hlet hfn =>
    have h := spells_word hne hword
    rwa [wordKind, if_neg hlet, if_neg hfn] at h
  | number hne hdigits =>
    have hlt := fun c hc => toNat_lt_of_digit (hdigits c hc)
    have h := Spells.number (toBytes_ne_nil hne) (forall_toBytes hlt hdigits)
    rwa [literal_toBytes hlt] at h
  | @symbol c kind h =>
    have hchar := char_toByte (toNat_lt_of_symbol h)
    have hspells := Spells.symbol (b := toByte c) (hchar.symm ▸ h)
    rwa [literal_singleton, hchar, ← toBytes_singleton] at hspells
  | @illegal c hlt hblank hword hdigit hsymbol =>
    have hchar := char_toByte hlt
    have hspells := Spells.illegal (b := toByte c) (by rwa [hchar]) (by rwa [IsWord, hchar])
      (by rwa [IsNumber, hchar]) (by rwa [hchar])
    rwa [literal_singleton, hchar, ← toBytes_singleton] at hspells

/-- A token has one spelling. -/
theorem Spells.eq_toBytes {run : List UInt8} {t : Token} (h : Spells run t) : run = toBytes t.literal := by
  rw [h.literal_eq, toBytes_literal]

theorem spells_iff {run : List UInt8} {t : Token} :
    Spells run t ↔ t.WellFormed ∧ run = toBytes t.literal := by
  constructor
  · intro h
    exact ⟨h.wellFormed, h.eq_toBytes⟩
  · rintro ⟨h, rfl⟩
    exact spells_toBytes h

/-- The first byte of a token is no blank, and tells which bytes would go on with it. -/
theorem Spells.head {run : List UInt8} {t : Token} (h : Spells run t) : ∃ b rest, run = b :: rest ∧
    char b ∉ blanks ∧ (IsWord b ↔ t.kind.isWord = true) ∧ (IsNumber b ↔ t.kind = .int) := by
  cases h with
  | @word run hne hrun =>
    obtain ⟨b, rest, rfl⟩ := List.exists_cons_of_ne_nil hne
    have hb := hrun b List.mem_cons_self
    obtain ⟨hblank, hnumber⟩ := isWord_excludes hb
    exact ⟨b, rest, rfl, hblank, by simp [hb, isWord_wordKind], by simp [hnumber, wordKind_ne_int]⟩
  | @number run hne hrun =>
    obtain ⟨b, rest, rfl⟩ := List.exists_cons_of_ne_nil hne
    have hb := hrun b List.mem_cons_self
    have hword : ¬ IsWord b := fun hw => (isWord_excludes hw).2 hb
    exact ⟨b, rest, rfl, isNumber_excludes hb, by simp [hword, Token.Kind.isWord], by simp [hb]⟩
  | @symbol b kind hkind =>
    obtain ⟨⟨hblank, hword, hnumber⟩, hkindWord, hkindInt⟩ := lookup_excludes hkind
    exact ⟨b, [], rfl, hblank, by simp [hword, hkindWord], by simp [hnumber, hkindInt]⟩
  | @illegal b hblank hword hnumber hsymbol =>
    exact ⟨b, [], rfl, hblank, by simp [hword, Token.Kind.isWord], by simp [hnumber]⟩

/-- A token stands in front of the tokens that follow it, unless the next byte goes on with it. -/
theorem Spells.scans {run rest : List UInt8} {t : Token} {ts : List Token} (h : Spells run t)
    (hend : ∀ b ∈ rest.head?, ¬ t.kind.Continues b) (tail : Scans rest ts) : Scans (run ++ rest) (t :: ts) := by
  cases h with
  | word hne hrun =>
    refine .word hne hrun ?_ tail
    intro b hb hword
    exact hend b hb (.inr ⟨isWord_wordKind _, hword⟩)
  | number hne hrun =>
    refine .number hne hrun ?_ tail
    intro b hb hnumber
    exact hend b hb (.inl ⟨rfl, hnumber⟩)
  | symbol h => exact .symbol h tail
  | illegal hblank hword hnumber hsymbol => exact .illegal hblank hword hnumber hsymbol tail

/-- The rules with all tokens alike: blanks, and runs with nothing behind them that goes on with them. -/
theorem Scans.spells_induction {P : List UInt8 → List Token → Prop} (nil : P [] [])
    (blank : ∀ b rest ts, char b ∈ blanks → P rest ts → P (b :: rest) ts)
    (token : ∀ run rest t ts, Spells run t → (∀ b ∈ rest.head?, ¬ t.kind.Continues b) → P rest ts →
      P (run ++ rest) (t :: ts))
    {bytes : List UInt8} {ts : List Token} (h : Scans bytes ts) : P bytes ts := by
  induction h with
  | nil => exact nil
  | blank h _ ih => exact blank _ _ _ h ih
  | word hne hrun hend _ ih =>
    refine token _ _ _ _ (.word hne hrun) ?_ ih
    intro b hb
    rintro (⟨hint, -⟩ | ⟨-, hword⟩)
    · exact wordKind_ne_int _ hint
    · exact hend b hb hword
  | number hne hrun hend _ ih =>
    refine token _ _ _ _ (.number hne hrun) ?_ ih
    intro b hb
    rintro (⟨-, hnumber⟩ | ⟨hword, -⟩)
    · exact hend b hb hnumber
    · cases hword
  | symbol h _ ih =>
    obtain ⟨-, hkindWord, hkindInt⟩ := lookup_excludes h
    refine token [_] _ _ _ (.symbol h) ?_ ih
    intro b _
    rintro (⟨hint, -⟩ | ⟨hword, -⟩)
    · exact hkindInt hint
    · simp [hkindWord] at hword
  | illegal hblank hword hnumber hsymbol _ ih =>
    refine token [_] _ _ _ (.illegal hblank hword hnumber hsymbol) ?_ ih
    intro b _
    rintro (⟨hint, -⟩ | ⟨hword, -⟩)
    · cases hint
    · cases hword

end Munch

end StreamLexer
