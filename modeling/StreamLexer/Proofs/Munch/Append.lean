import Mathlib.Data.List.Infix
import StreamLexer.Proofs.Munch.Scans

/-! What more bytes can change. The tokens of a byte string are settled whatever is appended, but for a run at its
very end, which goes on with the bytes that follow. The settled tokens are the complete ones, and nothing longer is
shared by all byte strings that begin with these bytes. -/
namespace StreamLexer.Munch

/-- Induction on the tokens of a byte string. -/
@[elab_as_elim]
theorem lead_induction {P : List UInt8 → Prop} (nil : P [])
    (blank : ∀ b bs, Byte.isWhitespace b = true → P bs → P (b :: bs))
    (token : ∀ b bs, Byte.isWhitespace b = false → P (lead b bs).2 → P (b :: bs)) (bytes : List UInt8) :
    P bytes := by
  induction hn : bytes.length using Nat.strong_induction_on generalizing bytes with
  | h n ih =>
    subst hn
    cases bytes with
    | nil => exact nil
    | cons b bs =>
      cases hb : Byte.isWhitespace b with
      | true => exact blank b bs hb (ih _ (by simp) bs rfl)
      | false => exact token b bs hb (ih _ (length_lead_lt b bs) _ rfl)

/-- A token is the same whatever follows, unless it is a run up to the last byte. -/
theorem lead_append_right {b : UInt8} {bs : List UInt8} (more : List UInt8)
    (h : inRun b = false ∨ (lead b bs).2 ≠ []) :
    lead b (bs ++ more) = ((lead b bs).1, (lead b bs).2 ++ more) := by
  -- a run that stops within the bytes stops there as well when more bytes follow
  have hstops : ∀ accept : UInt8 → Bool, bs.dropWhile accept ≠ [] →
      (bs ++ more).takeWhile accept = bs.takeWhile accept ∧
        (bs ++ more).dropWhile accept = bs.dropWhile accept ++ more := by
    intro accept hne
    refine ⟨?_, ?_⟩
    · rw [List.takeWhile_append, if_neg]
      intro hlen
      apply hne
      have happ := congrArg List.length (List.takeWhile_append_dropWhile (p := accept) (l := bs))
      rw [List.length_append, hlen] at happ
      exact List.length_eq_zero_iff.1 (by omega)
    · rw [List.dropWhile_append, if_neg (by simpa using hne)]
  unfold lead at h ⊢
  split
  · rfl
  · rename_i hk
    simp only [hk] at h
    split_ifs with hl hd
    · rw [if_pos hl] at h
      obtain h | h := h
      · simp [inRun, hl] at h
      · rw [(hstops _ h).1, (hstops _ h).2]
    · rw [if_neg hl, if_pos hd] at h
      obtain h | h := h
      · simp [inRun, hd] at h
      · rw [(hstops _ h).1, (hstops _ h).2]
    · rfl

theorem complete_blank {b : UInt8} (bs : List UInt8) (h : Byte.isWhitespace b = true) :
    complete (b :: bs) = complete bs := by
  rw [← complete_dropWhile (b :: bs), List.dropWhile_cons_of_pos h, complete_dropWhile]

/-- Bytes of one class, which make one token however many they are. -/
inductive IsRun (run : List UInt8) : Prop
  | word (h : ∀ b ∈ run, Byte.isLetter b = true)
  | number (h : ∀ b ∈ run, Byte.isDigit b = true)

/-- A token that takes all bytes is a run if it begins as one. -/
theorem isRun_of_lead {b : UInt8} {bs : List UInt8} (hb : inRun b = true) (h : (lead b bs).2 = []) :
    IsRun (b :: bs) := by
  have hall : ∀ accept : UInt8 → Bool, accept b = true → bs.dropWhile accept = [] →
      ∀ c ∈ b :: bs, accept c = true := by
    intro accept haccept hdrop
    exact List.forall_mem_cons.2 ⟨haccept, List.dropWhile_eq_nil_iff.1 hdrop⟩
  unfold lead at h
  split at h
  · rename_i hk
    rw [(ofSymbol?_eq_some hk).1] at hb
    cases hb
  · split_ifs at h with hl hd
    · exact .word (hall _ hl h)
    · exact .number (hall _ hd h)
    · simp [inRun, hl, hd] at hb

/-- Appending bytes settles the complete tokens and leaves a run for the bytes that follow. -/
theorem tokens_append (bytes : List UInt8) :
    ∃ run, IsRun run ∧ ∀ more, tokens (bytes ++ more) = complete bytes ++ tokens (run ++ more) := by
  induction bytes using lead_induction with
  | nil => exact ⟨[], .word (by simp), by simp⟩
  | blank b bs hb ih =>
    obtain ⟨run, hrun, happ⟩ := ih
    refine ⟨run, hrun, ?_⟩
    intro more
    rw [List.cons_append, tokens_blank _ hb, complete_blank bs hb, happ]
  | token b bs hb ih =>
    by_cases hrest : (lead b bs).2 = []
    · rw [complete_last hb hrest]
      cases hin : inRun b with
      | true => exact ⟨b :: bs, isRun_of_lead hin hrest, fun more => rfl⟩
      | false =>
        refine ⟨[], .word (by simp), ?_⟩
        intro more
        rw [List.cons_append, tokens_lead _ hb, lead_append_right more (.inl hin), hrest]
        rfl
    · obtain ⟨run, hrun, happ⟩ := ih
      refine ⟨run, hrun, ?_⟩
      intro more
      rw [List.cons_append, tokens_lead _ hb, lead_append_right more (.inr hrest), complete_lead hb hrest, happ,
        List.cons_append]

/-- Complete tokens stay, whatever bytes follow. -/
theorem complete_isPrefix (bytes more : List UInt8) : complete bytes <+: tokens (bytes ++ more) := by
  obtain ⟨run, -, happ⟩ := tokens_append bytes
  rw [happ]
  exact List.prefix_append _ _

/-- A run is one token, with all its bytes for its text. -/
theorem IsRun.tokens_eq {run : List UInt8} (h : IsRun run) (hne : run ≠ []) :
    ∃ t : Token, tokens run = [t] ∧ t.literal = Byte.text run := by
  have hnil : tokens [] = [] := by simp [tokens]
  have hend : ∀ accept : UInt8 → Bool, ∀ b ∈ ([] : List UInt8).head?, ¬ accept b = true := by simp
  cases h with
  | word h =>
    have ht := tokens_word hne h (hend _)
    rw [List.append_nil, hnil] at ht
    exact ⟨_, ht, rfl⟩
  | number h =>
    have ht := tokens_number hne h (hend _)
    rw [List.append_nil, hnil] at ht
    exact ⟨_, ht, rfl⟩

theorem IsRun.append_self {run : List UInt8} (h : IsRun run) : IsRun (run ++ run) := by
  cases h with
  | word h => exact .word (by simpa [or_imp] using h)
  | number h => exact .number (by simpa [or_imp] using h)

/-- A run that goes on makes another token. -/
theorem IsRun.tokens_append_ne {run : List UInt8} (h : IsRun run) (hne : run ≠ []) :
    ∃ t t', tokens run = [t] ∧ tokens (run ++ run) = [t'] ∧ t ≠ t' := by
  obtain ⟨t, ht, htext⟩ := h.tokens_eq hne
  obtain ⟨t', ht', htext'⟩ := h.append_self.tokens_eq (by simp [hne])
  refine ⟨t, t', ht, ht', ?_⟩
  rintro rfl
  have hlen := congrArg String.length (htext.symm.trans htext')
  simp [Byte.text, hne] at hlen

/-- What all longer byte strings have in front is complete. -/
theorem isPrefix_complete {bytes : List UInt8} {shared : List Token}
    (h : ∀ more, shared <+: tokens (bytes ++ more)) : shared <+: complete bytes := by
  obtain ⟨run, hrun, happ⟩ := tokens_append bytes
  have hshared : ∀ more, shared <+: complete bytes ++ tokens (run ++ more) := by
    intro more
    rw [← happ]
    exact h more
  by_cases hne : run = []
  · simpa [hne, tokens] using hshared []
  · obtain ⟨t, t', ht, ht', hdiff⟩ := hrun.tokens_append_ne hne
    have hstop := hshared []
    have hmore := hshared run
    rw [List.append_nil, ht, List.prefix_concat_iff] at hstop
    rw [ht', List.prefix_concat_iff] at hmore
    obtain rfl | hstop := hstop
    · obtain heq | hmore := hmore
      · exact absurd (List.singleton_inj.1 (List.append_cancel_left heq)) hdiff
      · exact hmore
    · exact hstop

end StreamLexer.Munch
