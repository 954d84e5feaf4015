/-! A counter of 32 bits with a sign. What it does behind its largest number is up to the build of a program: it wraps
around to the smallest one, or the program halts with a notice. Up to there all builds count alike. -/
namespace StreamLexer.CommandLine

/-- What is left on the second channel when a program halts. There is something, and no escape character in it. -/
structure Notice where
  text : String
  nonempty : text ≠ ""
  unescaped : '\x1b' ∉ text.toList

/-- What counting does behind the largest number. -/
inductive Overflow where
  | wraps
  | halts (notice : Notice)

namespace Overflow

/-- Counts one on from `n`. -/
def next (o : Overflow) (n : Int32) : Except Notice Int32 :=
  match o with
  | wraps => .ok (n + 1)
  | halts notice => if n = Int32.maxValue then .error notice else .ok (n + 1)

/-- The first number that the counter does not tell. -/
def limit : Nat := 2147483648

/-- Whether counting from zero comes to `n`. -/
inductive Counts : Overflow → Nat → Prop
  | wrapped {n : Nat} : Counts wraps n
  | small {o : Overflow} {n : Nat} (h : n < limit) : Counts o n

variable {o : Overflow} {n : Nat}

theorem Counts.mono {m : Nat} (h : o.Counts n) (hle : m ≤ n) : o.Counts m := by
  cases h with
  | wrapped => exact .wrapped
  | small h => exact .small (Nat.lt_of_le_of_lt hle h)

theorem Counts.lt_of_halts {notice : Notice} (h : (halts notice).Counts n) : n < limit := by
  cases h with
  | small h => exact h

theorem ofNat_ne_maxValue (h : n + 1 < limit) : Int32.ofNat n ≠ Int32.maxValue := by
  intro heq
  have hint := congrArg Int32.toInt heq
  rw [Int32.toInt_ofNat_of_lt (Nat.lt_of_succ_lt h), Int32.toInt_maxValue] at hint
  rw [limit] at h
  omega

/-- A step of a count that goes on. -/
theorem Counts.next_eq (h : o.Counts (n + 1)) : o.next (Int32.ofNat n) = .ok (Int32.ofNat (n + 1)) := by
  have hsucc : Int32.ofNat (n + 1) = Int32.ofNat n + 1 := Int32.ofNat_add n 1
  rw [hsucc]
  cases h with
  | wrapped => rfl
  | small h =>
    cases o with
    | wraps => rfl
    | halts notice => exact if_neg (ofNat_ne_maxValue h)

/-- The step with which a program halts. -/
theorem next_maxValue (notice : Notice) (hn : n + 1 = limit) : (halts notice).next (Int32.ofNat n) = .error notice := by
  have hmax : Int32.ofNat n = Int32.maxValue := congrArg Int32.ofNat (Nat.succ.inj hn)
  exact if_pos hmax

/-- A count that does not come to its end is one of a program that halts. -/
theorem counts_or_halts (o : Overflow) (n : Nat) : o.Counts n ∨ ∃ notice, o = halts notice ∧ limit ≤ n := by
  cases o with
  | wraps => exact .inl .wrapped
  | halts notice =>
    by_cases h : n < limit
    · exact .inl (.small h)
    · exact .inr ⟨notice, rfl, Nat.le_of_not_lt h⟩

end Overflow

end StreamLexer.CommandLine
