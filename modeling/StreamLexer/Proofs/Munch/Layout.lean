import Mathlib.Data.List.Chain
import StreamLexer.Proofs.Munch.Spelling

/-! Layouts of tokens. A layout writes well formed tokens one after the other with blanks before, between and behind
them; only tokens that would run together need a blank between them. Reading a layout brings back its tokens, and
every byte string is the text of exactly one layout. -/
namespace StreamLexer.Munch

/-- Blanks, and then each token with the blanks behind it. -/
structure Layout where
  gap : List UInt8
  rest : List (Token × List UInt8)

namespace Layout

def tokens (d : Layout) : List Token := d.rest.map Prod.fst

/-- The tokens as they are written, each with the blanks behind it. -/
def body (rest : List (Token × List UInt8)) : List UInt8 := rest.flatMap fun p => toBytes p.1.literal ++ p.2

def bytes (d : Layout) : List UInt8 := d.gap ++ body d.rest

/-- The layouts that can be read back: well formed tokens with blanks where they are needed. -/
structure Legal (d : Layout) : Prop where
  gap_blank : ∀ b ∈ d.gap, char b ∈ blanks
  gaps_blank : ∀ p ∈ d.rest, ∀ b ∈ p.2, char b ∈ blanks
  wellFormed : ∀ p ∈ d.rest, p.1.WellFormed
  apart : d.rest.IsChain fun p q => p.1.kind.Clings q.1.kind → p.2 ≠ []

variable {gap next : List UInt8} {t : Token} {rest : List (Token × List UInt8)} {d d' : Layout}

@[simp] theorem tokens_nil (gap : List UInt8) : tokens ⟨gap, []⟩ = [] := rfl

@[simp] theorem tokens_cons : tokens ⟨gap, (t, next) :: rest⟩ = t :: tokens ⟨next, rest⟩ := rfl

@[simp] theorem bytes_nil (gap : List UInt8) : bytes ⟨gap, []⟩ = gap := by
  simp [bytes, body]

@[simp] theorem bytes_cons :
    bytes ⟨gap, (t, next) :: rest⟩ = gap ++ (toBytes t.literal ++ bytes ⟨next, rest⟩) := by
  simp [bytes, body]

theorem body_cons : body ((t, next) :: rest) = toBytes t.literal ++ bytes ⟨next, rest⟩ := by
  simp [bytes, body]

/-- A layout with a token is legal when the token stands well before a legal layout. -/
theorem legal_cons : Legal ⟨gap, (t, next) :: rest⟩ ↔
    (∀ b ∈ gap, char b ∈ blanks) ∧ t.WellFormed ∧
      (∀ p ∈ rest.head?, t.kind.Clings p.1.kind → next ≠ []) ∧ Legal ⟨next, rest⟩ := by
  constructor
  · rintro ⟨hgap, hgaps, hwell, hapart⟩
    rw [List.forall_mem_cons] at hgaps hwell
    rw [List.isChain_cons] at hapart
    exact ⟨hgap, hwell.1, hapart.1, hgaps.1, hgaps.2, hwell.2, hapart.2⟩
  · rintro ⟨hgap, hwell, hapart, hnext, hgaps, hwells, haparts⟩
    exact ⟨hgap, List.forall_mem_cons.2 ⟨hnext, hgaps⟩, List.forall_mem_cons.2 ⟨hwell, hwells⟩,
      List.isChain_cons.2 ⟨hapart, haparts⟩⟩

/-- The tokens begin with a byte that is no blank. -/
theorem head_body (hwell : ∀ p ∈ rest, p.1.WellFormed) : ∀ b ∈ (body rest).head?, char b ∉ blanks ∧
    ∃ p ∈ rest.head?, (IsWord b ↔ p.1.kind.isWord = true) ∧ (IsNumber b ↔ p.1.kind = .int) := by
  cases rest with
  | nil => simp [body]
  | cons p rest =>
    obtain ⟨t, next⟩ := p
    obtain ⟨c, cs, hrun, hblank, hclass⟩ := (spells_toBytes (hwell _ List.mem_cons_self)).head
    intro b hb
    rw [body_cons, hrun] at hb
    cases hb
    exact ⟨hblank, (t, next), rfl, hclass⟩

/-- A blank goes on with no token. -/
theorem not_continues_of_blank {b : UInt8} (h : char b ∈ blanks) (k : Token.Kind) : ¬ k.Continues b := by
  rintro (⟨-, hnumber⟩ | ⟨-, hword⟩)
  · exact isNumber_excludes hnumber h
  · exact (isWord_excludes hword).1 h

/-- What stands behind a token in a legal layout does not go on with it. -/
theorem Legal.not_continues (h : Legal ⟨gap, (t, next) :: rest⟩) :
    ∀ b ∈ (bytes ⟨next, rest⟩).head?, ¬ t.kind.Continues b := by
  obtain ⟨-, -, hapart, hnext⟩ := legal_cons.1 h
  intro b hb
  cases next with
  | cons c cs =>
    cases hb
    exact not_continues_of_blank (hnext.gap_blank b List.mem_cons_self) _
  | nil =>
    -- no blank stands between the tokens, so that they are not of one class
    obtain ⟨-, p, hp, hword, hnumber⟩ := head_body hnext.wellFormed b hb
    rintro (⟨hint, hb⟩ | ⟨hkind, hb⟩)
    · exact hapart p hp (.inl ⟨hint, hnumber.1 hb⟩) rfl
    · exact hapart p hp (.inr ⟨hkind, hword.1 hb⟩) rfl

theorem scans_blanks {ts : List Token} {bytes : List UInt8} (hgap : ∀ b ∈ gap, char b ∈ blanks)
    (h : Scans bytes ts) : Scans (gap ++ bytes) ts := by
  induction gap with
  | nil => exact h
  | cons b gap ih =>
    obtain ⟨hb, hgap⟩ := List.forall_mem_cons.1 hgap
    exact .blank hb (ih hgap)

/-- Reading a legal layout brings back its tokens. -/
theorem Legal.scans (h : d.Legal) : Scans d.bytes d.tokens := by
  obtain ⟨gap, rest⟩ := d
  induction rest generalizing gap with
  | nil =>
    have hblank := scans_blanks h.gap_blank .nil
    simpa using hblank
  | cons p rest ih =>
    obtain ⟨t, next⟩ := p
    have hend := h.not_continues
    obtain ⟨hgap, hwell, -, hnext⟩ := legal_cons.1 h
    rw [bytes_cons, tokens_cons]
    exact scans_blanks hgap ((spells_toBytes hwell).scans hend (ih next hnext))

theorem Legal.tokens_eq (h : d.Legal) : d.tokens = Munch.tokens d.bytes := h.scans.eq_tokens

/-- A run that nothing goes on with may stand in front of a legal layout. -/
theorem Legal.cons {run : List UInt8} (h : d.Legal) (hrun : Spells run t)
    (hend : ∀ b ∈ d.bytes.head?, ¬ t.kind.Continues b) : Legal ⟨[], (t, d.gap) :: d.rest⟩ := by
  obtain ⟨gap, rest⟩ := d
  refine legal_cons.2 ⟨by simp, hrun.wellFormed, ?_, h⟩
  rintro p hp hclings rfl
  obtain ⟨rest, rfl⟩ := List.head?_eq_some_iff.1 hp
  obtain ⟨u, next⟩ := p
  obtain ⟨b, bs, hbytes, -, hword, hnumber⟩ := (spells_toBytes (h.wellFormed _ List.mem_cons_self)).head
  have hb : b ∈ (bytes ⟨[], (u, next) :: rest⟩).head? := by
    rw [bytes_cons, hbytes]
    rfl
  apply hend b hb
  obtain ⟨hint, hint'⟩ | ⟨hkind, hkind'⟩ := hclings
  · exact .inl ⟨hint, hnumber.2 hint'⟩
  · exact .inr ⟨hkind, hword.2 hkind'⟩

/-- Every byte string is laid out in some way. -/
theorem exists_of_scans {bytes : List UInt8} {ts : List Token} (h : Scans bytes ts) :
    ∃ d : Layout, d.Legal ∧ d.bytes = bytes := by
  refine h.spells_induction (P := fun bytes _ => ∃ d : Layout, d.Legal ∧ d.bytes = bytes) ?nil ?blank ?token
  case nil => exact ⟨⟨[], []⟩, ⟨by simp, by simp, by simp, by simp⟩, rfl⟩
  case blank =>
    rintro b rest ts hb ⟨d, hd, rfl⟩
    refine ⟨⟨b :: d.gap, d.rest⟩, ⟨?_, hd.gaps_blank, hd.wellFormed, hd.apart⟩, rfl⟩
    exact List.forall_mem_cons.2 ⟨hb, hd.gap_blank⟩
  case token =>
    rintro run rest t ts hrun hend ⟨d, hd, rfl⟩
    refine ⟨⟨[], (t, d.gap) :: d.rest⟩, hd.cons hrun hend, ?_⟩
    rw [bytes_cons, ← hrun.eq_toBytes]
    rfl

/-- The blanks before the first token are all the blanks in front. -/
theorem Legal.split_gap (h : d.Legal) :
    d.bytes.takeWhile Byte.isWhitespace = d.gap ∧ d.bytes.dropWhile Byte.isWhitespace = body d.rest := by
  apply run_longest
  · intro b hb
    exact (isWhitespace_iff b).2 (h.gap_blank b hb)
  · intro b hb
    rw [isWhitespace_iff]
    exact (head_body h.wellFormed b hb).1

/-- No byte string is laid out in two ways. -/
theorem Legal.unique (h : d.Legal) (h' : d'.Legal) (hbytes : d.bytes = d'.bytes) : d = d' := by
  have htokens : d.tokens = d'.tokens := by rw [h.tokens_eq, h'.tokens_eq, hbytes]
  obtain ⟨gap, rest⟩ := d
  obtain ⟨gap', rest'⟩ := d'
  induction rest generalizing gap gap' rest' with
  | nil =>
    have hnil : rest' = [] := by simpa [Layout.tokens] using htokens.symm
    subst hnil
    simpa using hbytes
  | cons p rest ih =>
    obtain ⟨t, next⟩ := p
    cases rest' with
    | nil => simp at htokens
    | cons p' rest' =>
      obtain ⟨t', next'⟩ := p'
      simp only [tokens_cons, List.cons.injEq] at htokens
      obtain ⟨rfl, htokens⟩ := htokens
      obtain ⟨hgap, hbody⟩ := h.split_gap
      obtain ⟨hgap', hbody'⟩ := h'.split_gap
      rw [hbytes] at hgap hbody
      have hgaps : gap = gap' := hgap.symm.trans hgap'
      have hrest := hbody.symm.trans hbody'
      rw [body_cons, body_cons] at hrest
      have heq := ih next (legal_cons.1 h).2.2.2 next' rest' (legal_cons.1 h').2.2.2
        (List.append_cancel_left hrest) htokens
      cases heq
      rw [hgaps]

/-! The tokens of a layout one at a time. -/

/-- What stands behind the first tokens of a layout. -/
def behind : Layout → Nat → Layout
  | d, 0 => d
  | ⟨_, []⟩, _ + 1 => ⟨[], []⟩
  | ⟨_, (_, next) :: rest⟩, k + 1 => behind ⟨next, rest⟩ k

@[simp] theorem behind_zero (d : Layout) : d.behind 0 = d := by
  cases d
  rfl

@[simp] theorem behind_cons (k : Nat) : behind ⟨gap, (t, next) :: rest⟩ (k + 1) = behind ⟨next, rest⟩ k := rfl

/-- A stream without tokens has only its end to answer with. -/
theorem Legal.next_nil {ending : Ending} (h : Legal ⟨gap, []⟩) :
    Munch.next ⟨bytes ⟨gap, []⟩, ending⟩ = (ending.answer, ⟨[], .clean⟩) := by
  have hdrop := h.split_gap.2
  simp only [body, List.flatMap_nil] at hdrop
  simp only [Munch.next, hdrop]

/-- A token that a layout answers with is its first one, and leaves what stands behind it. -/
theorem Legal.next_cons {ending : Ending} {u : Token} {s : Stream} (h : Legal ⟨gap, (t, next) :: rest⟩)
    (hnext : Munch.next ⟨bytes ⟨gap, (t, next) :: rest⟩, ending⟩ = (.ok u, s)) :
    u = t ∧ s = ⟨bytes ⟨next, rest⟩, ending⟩ := by
  have hdrop := h.split_gap.2
  have htokens := h.tokens_eq
  obtain ⟨-, hwell, -, -⟩ := legal_cons.1 h
  obtain ⟨b, run, hrun, -⟩ := (spells_toBytes hwell).head
  rw [body_cons, hrun, List.cons_append] at hdrop
  have hlead : lead b (run ++ bytes ⟨next, rest⟩) = (t, bytes ⟨next, rest⟩) := by
    rw [← Munch.tokens_dropWhile, hdrop, tokens_lead _ (isWhitespace_of_dropWhile hdrop), tokens_cons] at htokens
    have hfirst := (List.cons.inj htokens).1
    have htext := toBytes_lead b (run ++ bytes ⟨next, rest⟩)
    rw [← hfirst, hrun, List.cons_append] at htext
    have hrest := List.append_cancel_left (List.cons.inj htext).2
    exact Prod.ext hfirst.symm hrest.symm
  simp only [Munch.next, hdrop, first, hlead] at hnext
  split at hnext
  · cases hnext
  · cases hnext
    exact ⟨rfl, rfl⟩

end Layout

end StreamLexer.Munch
