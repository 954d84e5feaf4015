import Mathlib.Data.List.Basic
import Mathlib.Data.List.TakeWhile
import Mathlib.Tactic.SplitIfs
import StreamLexer.Error
import StreamLexer.Munch
import StreamLexer.Stream

/-! Maximal munch one token at a time. A call takes the blanks and then one token off a stream, or answers with
its end. The answers that a stream holds are the tokens of its bytes, followed by the failure if it ends in
one; a run that the failure cuts off is not among them. -/
namespace StreamLexer

/-- What a call answers at an end. -/
def Ending.answer : Ending → Except Error Token
  | .clean => .ok .eof
  | .failure e => .error (.sourceFault e)

namespace Munch

/-- The token that begins with a byte that is no blank, and the bytes behind it. -/
def lead (b : UInt8) (bs : List UInt8) : Token × List UInt8 :=
  match Token.Kind.ofSymbol? b with
  | some kind => (.single kind b, bs)
  | none =>
    if Byte.isLetter b then
      (.word (Byte.text (b :: bs.takeWhile Byte.isLetter)), bs.dropWhile Byte.isLetter)
    else if Byte.isDigit b then
      (.number (Byte.text (b :: bs.takeWhile Byte.isDigit)), bs.dropWhile Byte.isDigit)
    else (.single .illegal b, bs)

/-- Whether a byte belongs to a run, which more bytes might have gone on with. -/
def inRun (b : UInt8) : Bool := Byte.isLetter b || Byte.isDigit b

/-- The first answer of a stream that does not begin with a blank. A failure right behind a run takes the
place of the run. -/
def first (b : UInt8) (bs : List UInt8) (ending : Ending) : Except Error Token × Stream :=
  match (if inRun b = true ∧ (lead b bs).2 = [] then ending.fault? else none) with
  | some e => (.error e, ⟨[], .clean⟩)
  | none => (.ok (lead b bs).1, ⟨(lead b bs).2, ending⟩)

/-- The first answer of a stream, and the stream that is left. -/
def next (s : Stream) : Except Error Token × Stream :=
  match s.bytes.dropWhile Byte.isWhitespace with
  | [] => (s.ending.answer, ⟨[], .clean⟩)
  | b :: bs => first b bs s.ending

/-- Whether the last token may lack bytes that were still to come. -/
def endsInRun (bytes : List UInt8) : Bool := bytes.getLast?.any inRun

/-- The tokens that are complete whatever comes behind them. -/
def complete (bytes : List UInt8) : List Token :=
  if endsInRun bytes then (tokens bytes).dropLast else tokens bytes

/-- All answers that a stream holds before its end is answered for ever. -/
def items (s : Stream) : List (Except Error Token) :=
  match s.ending with
  | .clean => (tokens s.bytes).map .ok
  | .failure e => (complete s.bytes).map .ok ++ [.error (.sourceFault e)]

@[simp] theorem complete_nil : complete [] = [] := by
  simp [complete, endsInRun, tokens]

@[simp] theorem items_nil : items ⟨[], .clean⟩ = [] := by
  simp [items, tokens]

/-- A symbol belongs to no run and is none of the kinds that a symbol has not. -/
theorem ofSymbol?_eq_some {b : UInt8} {kind : Token.Kind} (h : Token.Kind.ofSymbol? b = some kind) :
    inRun b = false ∧ kind ≠ .eof := by
  unfold Token.Kind.ofSymbol? at h
  split_ifs at h with h₁ h₂ h₃ h₄ h₅ h₆ h₇ h₈ <;> cases h <;> subst b <;> decide

/-- A blank belongs to no run. -/
theorem inRun_of_isWhitespace {b : UInt8} (h : Byte.isWhitespace b = true) : inRun b = false := by
  simp only [Byte.isWhitespace, Bool.or_eq_true, beq_iff_eq, or_assoc] at h
  rcases h with rfl | rfl | rfl | rfl <;> decide

theorem lead_not_eof (b : UInt8) (bs : List UInt8) : (lead b bs).1.isEof = false := by
  unfold lead
  split
  · rename_i kind hk
    simpa [Token.isEof, Token.single] using (ofSymbol?_eq_some hk).2
  · split_ifs
    · simp only [Token.isEof, Token.word, Token.Kind.ofWord]
      split <;> rfl
    · rfl
    · rfl

theorem first_not_eof {b : UInt8} {bs : List UInt8} {ending : Ending} {t : Token}
    (h : (first b bs ending).1 = .ok t) : t.isEof = false := by
  unfold first at h
  split at h
  · cases h
  · cases h
    exact lead_not_eof b bs

/-- What stands before the bytes behind a token is not empty, and is one run if it begins as one. -/
theorem lead_append (b : UInt8) (bs : List UInt8) : ∃ run,
    b :: bs = (b :: run) ++ (lead b bs).2 ∧ (inRun b = true → ∀ c ∈ run, inRun c = true) ∧
      (inRun b = false → run = []) := by
  unfold lead
  split
  · rename_i kind hk
    have hrun := (ofSymbol?_eq_some hk).1
    refine ⟨[], rfl, ?_, fun _ => rfl⟩
    simp [hrun]
  · split_ifs with hl hd
    · refine ⟨bs.takeWhile Byte.isLetter, by simp, ?_, ?_⟩
      · intro _ c hc
        simp [inRun, List.mem_takeWhile_imp hc]
      · simp [inRun, hl]
    · refine ⟨bs.takeWhile Byte.isDigit, by simp, ?_, ?_⟩
      · intro _ c hc
        simp [inRun, List.mem_takeWhile_imp hc]
      · simp [inRun, hd]
    · exact ⟨[], rfl, by simp, fun _ => rfl⟩

theorem length_lead_lt (b : UInt8) (bs : List UInt8) : (lead b bs).2.length < (b :: bs).length := by
  obtain ⟨run, happ, -, -⟩ := lead_append b bs
  rw [happ, List.length_append, List.length_cons]
  omega

theorem isWhitespace_of_dropWhile {bytes bs : List UInt8} {b : UInt8}
    (h : bytes.dropWhile Byte.isWhitespace = b :: bs) : Byte.isWhitespace b = false := by
  have hne : bytes.dropWhile Byte.isWhitespace ≠ [] := by simp [h]
  have hhead := List.head_dropWhile_not Byte.isWhitespace hne
  simpa [h] using hhead

theorem tokens_blank {b : UInt8} (bs : List UInt8) (h : Byte.isWhitespace b = true) :
    tokens (b :: bs) = tokens bs := by
  rw [tokens, if_pos h]

theorem tokens_lead {b : UInt8} (bs : List UInt8) (h : Byte.isWhitespace b = false) :
    tokens (b :: bs) = (lead b bs).1 :: tokens (lead b bs).2 := by
  rw [tokens, if_neg (by simp [h])]
  cases hk : Token.Kind.ofSymbol? b with
  | some kind => simp only [lead, hk]
  | none =>
    simp only [lead, hk]
    split_ifs <;> rfl

theorem tokens_dropWhile (bytes : List UInt8) :
    tokens (bytes.dropWhile Byte.isWhitespace) = tokens bytes := by
  induction bytes with
  | nil => rfl
  | cons b bs ih =>
    by_cases h : Byte.isWhitespace b = true
    · rw [List.dropWhile_cons_of_pos h, ih, tokens_blank bs h]
    · rw [List.dropWhile_cons_of_neg h]

/-- Only blanks hold no tokens. -/
theorem tokens_eq_nil_iff {bytes : List UInt8} :
    tokens bytes = [] ↔ bytes.dropWhile Byte.isWhitespace = [] := by
  rw [← tokens_dropWhile]
  cases h : bytes.dropWhile Byte.isWhitespace with
  | nil => simp [tokens]
  | cons b bs =>
    simp [tokens_lead bs (isWhitespace_of_dropWhile h)]

/-- The bytes in front do not matter to how a byte string ends. -/
theorem endsInRun_append (front : List UInt8) {bytes : List UInt8} (h : bytes ≠ []) :
    endsInRun (front ++ bytes) = endsInRun bytes := by
  rw [endsInRun, List.getLast?_append_of_ne_nil _ h, endsInRun]

theorem endsInRun_of_blank {bytes : List UInt8} (h : bytes.dropWhile Byte.isWhitespace = []) :
    endsInRun bytes = false := by
  rw [List.dropWhile_eq_nil_iff] at h
  cases hc : bytes.getLast? with
  | none => simp [endsInRun, hc]
  | some c => simp [endsInRun, hc, inRun_of_isWhitespace (h c (List.mem_of_getLast? hc))]

theorem complete_dropWhile (bytes : List UInt8) :
    complete (bytes.dropWhile Byte.isWhitespace) = complete bytes := by
  by_cases h : bytes.dropWhile Byte.isWhitespace = []
  · rw [h, complete, complete, endsInRun_of_blank h, tokens_eq_nil_iff.2 h]
    simp [tokens]
  · have hends := endsInRun_append (bytes.takeWhile Byte.isWhitespace) h
    rw [List.takeWhile_append_dropWhile] at hends
    rw [complete, complete, hends, tokens_dropWhile]

/-- A token with bytes behind it is complete. -/
theorem complete_lead {b : UInt8} {bs : List UInt8} (h : Byte.isWhitespace b = false)
    (hrest : (lead b bs).2 ≠ []) : complete (b :: bs) = (lead b bs).1 :: complete (lead b bs).2 := by
  obtain ⟨run, happ, -, -⟩ := lead_append b bs
  have hends : endsInRun (b :: bs) = endsInRun (lead b bs).2 := by
    rw [← endsInRun_append (b :: run) hrest, ← happ]
  rw [complete, complete, hends, tokens_lead bs h]
  split_ifs with hrun
  · -- bytes that end in a run are not all blanks, so the last token is one of theirs
    refine List.dropLast_cons_of_ne_nil ?_
    intro hnil
    rw [endsInRun_of_blank (tokens_eq_nil_iff.1 hnil)] at hrun
    cases hrun
  · rfl

/-- The last token is complete unless it is a run. -/
theorem complete_last {b : UInt8} {bs : List UInt8} (h : Byte.isWhitespace b = false)
    (hrest : (lead b bs).2 = []) :
    complete (b :: bs) = if inRun b then [] else [(lead b bs).1] := by
  obtain ⟨run, happ, hall, hnone⟩ := lead_append b bs
  rw [hrest, List.append_nil] at happ
  cases List.cons.inj happ with
  | intro _ hbs =>
    subst hbs
    have hends : endsInRun (b :: bs) = inRun b := by
      rw [endsInRun, List.getLast?_eq_some_getLast (by simp)]
      cases hb : inRun b with
      | true =>
        have hmem := List.getLast_mem (l := b :: bs) (by simp)
        rcases List.mem_cons.1 hmem with heq | hin
        · simp [heq, hb]
        · simp [hall hb _ hin]
      | false => simp [hnone hb, hb]
    rw [complete, hends, tokens_lead bs h, hrest]
    simp [tokens]

/-- The answers of a stream are those of its first call and then those of the stream that is left. -/
inductive Yields (s : Stream) : Except Error Token × Stream → Prop
  | token {t : Token} {rest : List UInt8} (ht : t.isEof = false)
      (hi : items s = .ok t :: items ⟨rest, s.ending⟩) (hlt : rest.length < s.bytes.length) :
      Yields s (.ok t, ⟨rest, s.ending⟩)
  | fault {e : IoError} (he : s.ending = .failure e) (hi : items s = [.error (.sourceFault e)]) :
      Yields s (.error (.sourceFault e), ⟨[], .clean⟩)
  | eof (he : s.ending = .clean) (hi : items s = []) : Yields s (.ok .eof, ⟨[], .clean⟩)

theorem items_blank (s : Stream) : items ⟨s.bytes.dropWhile Byte.isWhitespace, s.ending⟩ = items s := by
  simp only [items, tokens_dropWhile, complete_dropWhile]

theorem yields_next (s : Stream) : Yields s (next s) := by
  have hblank := items_blank s
  have hlen := (List.dropWhile_sublist (l := s.bytes) Byte.isWhitespace).length_le
  unfold next
  split
  · rename_i hnil
    have ht := tokens_eq_nil_iff.2 hnil
    cases he : s.ending with
    | clean => exact .eof he (by simp [items, he, ht])
    | failure e => exact .fault he (by simp [items, he, complete, ht])
  · rename_i b bs hcons
    have hb := isWhitespace_of_dropWhile hcons
    have hlead := length_lead_lt b bs
    rw [hcons] at hblank hlen
    unfold first
    split
    · rename_i e he
      split_ifs at he with hcut
      obtain ⟨cause, hcause, rfl⟩ := Ending.fault?_eq_some_iff.1 he
      refine .fault hcause ?_
      simp [items, hcause, ← complete_dropWhile s.bytes, hcons, complete_last hb hcut.2, hcut.1]
    · rename_i hnone
      refine .token (lead_not_eof b bs) ?_ (by omega)
      rw [← hblank]
      cases he : s.ending with
      | clean => simp only [items, tokens_lead bs hb, List.map_cons]
      | failure e =>
        by_cases hrest : (lead b bs).2 = []
        · have hrun : inRun b = false := by simpa [hrest, he, Ending.fault?] using hnone
          simp [items, complete_last hb hrest, hrun, hrest]
        · simp only [items, complete_lead hb hrest, List.map_cons, List.cons_append]

theorem next_of_items_nil {s : Stream} (h : items s = []) :
    s.ending = .clean ∧ next s = (.ok .eof, ⟨[], .clean⟩) := by
  have hy := yields_next s
  generalize next s = p at hy
  cases hy with
  | token _ hi => simp [h] at hi
  | fault _ hi => simp [h] at hi
  | eof he _ => exact ⟨he, rfl⟩

theorem next_of_items_cons {s : Stream} {r : Except Error Token} {rest : List (Except Error Token)}
    (h : items s = r :: rest) :
    (next s).1 = r ∧ items (next s).2 = rest ∧ ∀ t, r = .ok t → t.isEof = false := by
  have hy := yields_next s
  generalize next s = p at hy
  cases hy with
  | token ht hi =>
    rw [h] at hi
    cases hi
    refine ⟨rfl, rfl, ?_⟩
    rintro t ⟨⟩
    exact ht
  | fault _ hi =>
    rw [h] at hi
    cases hi
    exact ⟨rfl, items_nil, by simp⟩
  | eof _ hi => simp [h] at hi

/-- Nothing is left behind a failure. -/
theorem next_of_error {s : Stream} {e : Error} (h : (next s).1 = .error e) : (next s).2 = ⟨[], .clean⟩ := by
  have hy := yields_next s
  generalize next s = p at h hy
  cases hy with
  | token => cases h
  | fault => rfl
  | eof => rfl

/-- All tokens of a list of answers with the end behind them, or the first failure among them. -/
def drained : List (Except Error Token) → Except Error (List Token)
  | [] => .ok [.eof]
  | .ok t :: rest => (drained rest).map (t :: ·)
  | .error e :: _ => .error e

theorem drained_map_ok (tokens : List Token) : drained (tokens.map .ok) = .ok (tokens ++ [.eof]) := by
  induction tokens with
  | nil => rfl
  | cons t tokens ih => simp [drained, ih, Except.map]

end Munch

end StreamLexer
