import Mathlib.Data.List.Basic
import Mathlib.Tactic.SplitIfs
import StreamLexer.Text.Quoted

/-! Quoted text can be read back. The escapes of two characters are never the beginning of one another, since the
hexadecimal digits of a code point end at a brace, so a quoted text determines the text. No control character stands
in it. -/
namespace StreamLexer.Text

/-- What stands before the first of a character and behind it. -/
theorem split_at_first {mark : Char} {front front' back back' : List Char} (h : mark ∉ front) (h' : mark ∉ front')
    (heq : front ++ mark :: back = front' ++ mark :: back') : front = front' ∧ back = back' := by
  induction front generalizing front' with
  | nil =>
    cases front' with
    | nil => exact ⟨rfl, (List.cons.inj heq).2⟩
    | cons c front' => exact absurd (List.cons.inj heq).1 (List.ne_of_not_mem_cons h')
  | cons c front ih =>
    cases front' with
    | nil => exact absurd (List.cons.inj heq).1.symm (List.ne_of_not_mem_cons h)
    | cons d front' =>
      obtain ⟨rfl, hrest⟩ := List.cons.inj heq
      obtain ⟨rfl, hback⟩ := ih (List.not_mem_of_not_mem_cons h) (List.not_mem_of_not_mem_cons h') hrest
      exact ⟨rfl, hback⟩

/-- The control characters: those below the space, and those from the delete character on. -/
def isControl (c : Char) : Bool := c.toNat < 0x20 || (0x7F ≤ c.toNat && c.toNat < 0xA0)

theorem isControl_of_mem {chars : List Char} {c : Char} (h : chars.any isControl = false) (hc : c ∈ chars) :
    isControl c = false := by
  simpa using List.any_eq_false.1 h c hc

namespace Quoted

def hexDigits : List Char := "0123456789abcdef".toList

theorem digitChar_mem {n : Nat} (h : n < 16) : n.digitChar ∈ hexDigits := by
  have hall : ∀ n < 16, n.digitChar ∈ hexDigits := by decide
  exact hall n h

theorem digitChar_injective {m n : Nat} (hm : m < 16) (hn : n < 16) (h : m.digitChar = n.digitChar) : m = n := by
  have hall : ∀ m < 16, ∀ n < 16, m.digitChar = n.digitChar → m = n := by decide
  exact hall m hm n hn h

/-- The last digit is the remainder, and those before it are the digits of the quotient. -/
theorem toDigits_of_le {n : Nat} (h : 16 ≤ n) :
    Nat.toDigits 16 n = Nat.toDigits 16 (n / 16) ++ [(n % 16).digitChar] := Nat.toDigits_of_base_le (by decide) h

theorem mem_hexDigits {n : Nat} {c : Char} (h : c ∈ Nat.toDigits 16 n) : c ∈ hexDigits := by
  induction n using Nat.strongRecOn with
  | ind n ih =>
    by_cases hn : n < 16
    · rw [Nat.toDigits_of_lt_base hn, List.mem_singleton] at h
      rw [h]
      exact digitChar_mem hn
    · rw [toDigits_of_le (Nat.le_of_not_lt hn), List.mem_append, List.mem_singleton] at h
      obtain h | rfl := h
      · exact ih (n / 16) (by omega) h
      · exact digitChar_mem (by omega)

/-- From sixteen on a number has more than one digit. -/
theorem toDigits_ne_singleton {n : Nat} (h : 16 ≤ n) (c : Char) : Nat.toDigits 16 n ≠ [c] := by
  rw [toDigits_of_le h]
  intro heq
  obtain ⟨hfront, -⟩ := List.append_inj' (show _ = [] ++ [c] from heq) rfl
  exact Nat.toDigits_ne_nil hfront

theorem toDigits_injective {m n : Nat} (h : Nat.toDigits 16 m = Nat.toDigits 16 n) : m = n := by
  induction m using Nat.strongRecOn generalizing n with
  | ind m ih =>
    by_cases hm : m < 16
    · rw [Nat.toDigits_of_lt_base hm] at h
      have hn : n < 16 := Nat.lt_of_not_le fun hn => toDigits_ne_singleton hn _ h.symm
      rw [Nat.toDigits_of_lt_base hn] at h
      exact digitChar_injective hm hn (List.cons.inj h).1
    · have hm' : 16 ≤ m := Nat.le_of_not_lt hm
      have hn : 16 ≤ n := by
        refine Nat.le_of_not_lt ?_
        intro hn
        rw [Nat.toDigits_of_lt_base hn] at h
        exact toDigits_ne_singleton hm' _ h
      rw [toDigits_of_le hm', toDigits_of_le hn] at h
      obtain ⟨hfront, hlast⟩ := List.append_inj' h rfl
      have hquot := ih (m / 16) (by omega) hfront
      have hrem := digitChar_injective (by omega) (by omega) (List.cons.inj hlast).1
      omega

/-- The characters with an escape of their own, each with what stands behind the backslash. -/
def own : List (Char × Char) :=
  [('\x00', '0'), ('\t', 't'), ('\n', 'n'), ('\r', 'r'), ('"', '"'), ('\\', '\\')]

/-- The ways in which a character is written. -/
inductive Escapes (c : Char) : List Char → Prop
  | own {k : Char} (h : (c, k) ∈ own) : Escapes c ['\\', k]
  | hidden : Escapes c (codePoint c)
  | plain (hown : ∀ p ∈ own, c ≠ p.1) (hshown : isHidden c = false) : Escapes c [c]

theorem escapes_escape (c : Char) : Escapes c (escape c) := by
  unfold escape
  split_ifs with hnul htab hnewline hreturn hquote hbackslash hhidden
  · exact .own (by simp [own, hnul])
  · exact .own (by simp [own, htab])
  · exact .own (by simp [own, hnewline])
  · exact .own (by simp [own, hreturn])
  · exact .own (by simp [own, hquote])
  · exact .own (by simp [own, hbackslash])
  · exact .hidden
  · refine .plain ?_ (by simpa using hhidden)
    simp only [own, List.forall_mem_cons]
    exact ⟨hnul, htab, hnewline, hreturn, hquote, hbackslash, by simp⟩

section
variable {c d : Char} {w v s t : List Char}

/-- What stands behind the backslash tells the character. -/
theorem own_injective {k : Char} (hc : (c, k) ∈ own) (hd : (d, k) ∈ own) : c = d := by
  have hall : ∀ p ∈ own, ∀ q ∈ own, p.2 = q.2 → p.1 = q.1 := by decide
  exact hall _ hc _ hd rfl

/-- The letter that begins a code point is not among those that stand for a character. -/
theorem own_ne_codePoint {k : Char} (h : (c, k) ∈ own) : k ≠ 'u' := by
  have hall : ∀ p ∈ own, p.2 ≠ 'u' := by decide
  exact hall _ h

/-- The digits of a code point end at the first closing brace. -/
theorem codePoint_injective (h : codePoint c ++ s = codePoint d ++ t) : c = d ∧ s = t := by
  have hbrace : ∀ n, '\x7d' ∉ Nat.toDigits 16 n := fun n hmem => absurd (mem_hexDigits hmem) (by decide)
  simp only [codePoint, List.append_assoc, List.append_cancel_left_eq] at h
  obtain ⟨hdigits, hrest⟩ := split_at_first (hbrace _) (hbrace _) h
  exact ⟨Char.toNat_inj.1 (toDigits_injective hdigits), hrest⟩

/-- No escape of one character begins that of another. -/
theorem Escapes.unique (hc : Escapes c w) (hd : Escapes d v) (h : w ++ s = v ++ t) : c = d ∧ s = t := by
  -- the backslash has an escape of its own, so a plain character is never taken for the beginning of an escape
  have hbackslash : ('\\', '\\') ∈ Quoted.own := by decide
  cases hc with
  | own hc =>
    cases hd with
    | own hd =>
      obtain ⟨rfl, hrest⟩ := List.cons.inj (List.cons.inj h).2
      exact ⟨own_injective hc hd, hrest⟩
    | hidden => exact absurd (List.cons.inj (List.cons.inj h).2).1 (own_ne_codePoint hc)
    | plain hown => exact absurd (List.cons.inj h).1.symm (hown _ hbackslash)
  | hidden =>
    cases hd with
    | own hd => exact absurd (List.cons.inj (List.cons.inj h).2).1.symm (own_ne_codePoint hd)
    | hidden => exact codePoint_injective h
    | plain hown => exact absurd (List.cons.inj h).1.symm (hown _ hbackslash)
  | plain hown =>
    cases hd with
    | own => exact absurd (List.cons.inj h).1 (hown _ hbackslash)
    | hidden => exact absurd (List.cons.inj h).1 (hown _ hbackslash)
    | plain => exact List.cons.inj h

theorem Escapes.ne_nil (h : Escapes c w) : w ≠ [] := by
  cases h <;> simp [codePoint]

/-- A text is determined by its escapes. -/
theorem encode_injective (h : encode s = encode t) : s = t := by
  induction s generalizing t with
  | nil =>
    cases t with
    | nil => rfl
    | cons d t => exact absurd (List.append_eq_nil_iff.1 h.symm).1 (escapes_escape d).ne_nil
  | cons c s ih =>
    cases t with
    | nil => exact absurd (List.append_eq_nil_iff.1 h).1 (escapes_escape c).ne_nil
    | cons d t =>
      obtain ⟨rfl, hrest⟩ := (escapes_escape c).unique (escapes_escape d) h
      rw [ih hrest]

/-- A control character is hidden. -/
theorem isHidden_of_isControl (h : isControl c = true) : isHidden c = true := by
  have hlow : (0x0, 0x1F) ∈ Unprintable.spans := List.mem_cons_self
  have hdelete : (0x7F, 0xA0) ∈ Unprintable.spans := List.mem_cons_of_mem _ List.mem_cons_self
  have hmem : Unprintable.spans.contains c.toNat = true := by
    rw [Spans.contains_iff Unprintable.spans_ascend]
    simp only [isControl, Bool.or_eq_true, Bool.and_eq_true, decide_eq_true_eq] at h
    obtain h | h := h
    · exact ⟨_, hlow, by omega, by omega⟩
    · exact ⟨_, hdelete, by omega, by omega⟩
  simp [isHidden, hmem]

theorem Escapes.isControl_eq_false (h : Escapes c w) (hd : d ∈ w) : isControl d = false := by
  cases h with
  | own hown =>
    have hall : ∀ p ∈ Quoted.own, ['\\', p.2].any isControl = false := by decide
    exact isControl_of_mem (hall _ hown) hd
  | hidden =>
    have hall : (['\\', 'u', '\x7b'] ++ hexDigits ++ ['\x7d']).any isControl = false := by decide
    refine isControl_of_mem hall ?_
    simp only [codePoint, List.mem_append] at hd ⊢
    exact hd.imp_left fun hd => hd.imp_right mem_hexDigits
  | plain hown hshown =>
    rw [List.mem_singleton] at hd
    subst hd
    refine Bool.eq_false_iff.2 ?_
    intro hcontrol
    rw [isHidden_of_isControl hcontrol] at hshown
    cases hshown

theorem isControl_of_mem_encode (h : c ∈ encode s) : isControl c = false := by
  obtain ⟨d, -, hc⟩ := List.mem_flatMap.1 h
  exact (escapes_escape d).isControl_eq_false hc

end

end Quoted

end StreamLexer.Text
