/-! Sets of code points as closed spans in ascending order. A search stops at the first span that begins
above the code point, so a low one is found or ruled out at once. -/
namespace StreamLexer.Text

/-- Closed spans, each with its first and its last code point. -/
abbrev Spans := List (Nat × Nat)

namespace Spans

/-- Whether the spans from `low` on ascend and do not touch. -/
def ascendFrom (low : Nat) : Spans → Bool
  | [] => true
  | (first, last) :: rest => low ≤ first && first ≤ last && ascendFrom (last + 2) rest

/-- Whether all spans ascend and do not touch. -/
def ascend (spans : Spans) : Bool := spans.ascendFrom 0

/-- Whether a code point lies in one of the ascending spans. -/
def contains : Spans → Nat → Bool
  | [], _ => false
  | (first, last) :: rest, n => if n < first then false else n ≤ last || contains rest n

/-- A code point below all spans lies in none of them. -/
theorem contains_eq_false_of_lt {spans : Spans} {low n : Nat} (h : spans.ascendFrom low = true)
    (hn : n < low) : spans.contains n = false := by
  cases spans with
  | nil => rfl
  | cons span rest =>
    simp only [ascendFrom, Bool.and_eq_true, decide_eq_true_eq] at h
    rw [contains, if_pos (by omega)]

theorem contains_iff_of_ascendFrom {spans : Spans} {low : Nat} (h : spans.ascendFrom low = true)
    (n : Nat) : spans.contains n = true ↔ ∃ s ∈ spans, s.1 ≤ n ∧ n ≤ s.2 := by
  induction spans generalizing low with
  | nil => simp [contains]
  | cons span rest ih =>
    obtain ⟨first, last⟩ := span
    simp only [ascendFrom, Bool.and_eq_true, decide_eq_true_eq] at h
    obtain ⟨⟨-, hle⟩, hrest⟩ := h
    by_cases hn : n < first
    · have hfalse := contains_eq_false_of_lt hrest (show n < last + 2 by omega)
      have hnone := mt (ih hrest).2 (by rw [hfalse]; decide)
      simp only [contains, if_pos hn, List.mem_cons]
      constructor
      · intro h
        cases h
      · rintro ⟨s, rfl | hs, hb⟩
        · omega
        · exact absurd ⟨s, hs, hb⟩ hnone
    · simp only [contains, if_neg hn, Bool.or_eq_true, decide_eq_true_eq, ih hrest, List.mem_cons]
      constructor
      · rintro (h | ⟨s, hs, hb⟩)
        · exact ⟨_, .inl rfl, by omega, h⟩
        · exact ⟨s, .inr hs, hb⟩
      · rintro ⟨s, rfl | hs, hb⟩
        · exact .inl hb.2
        · exact .inr ⟨s, hs, hb⟩

/-- In ascending spans the search finds exactly the members. -/
theorem contains_iff {spans : Spans} (h : spans.ascend = true) (n : Nat) :
    spans.contains n = true ↔ ∃ s ∈ spans, s.1 ≤ n ∧ n ≤ s.2 :=
  contains_iff_of_ascendFrom h n

end Spans

end StreamLexer.Text
