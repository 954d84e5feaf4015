import StreamLexer.Sink

/-! What a sink takes. However few bytes a write may bring and however often it is interrupted, all bytes arrive
that the sink can hold, in order. Bytes beyond its limit are refused, and those before the limit are kept. A flush
is noted, and fails if it is the failing one. -/
namespace StreamLexer.Sink

namespace Behaviour

/-- Whether a sink can come to hold a number of bytes. -/
def Holds (b : Behaviour) (count : Nat) : Prop := ∀ limit ∈ b.limit, count ≤ limit

/-- What a write beyond the limit fails with. -/
def refusal (b : Behaviour) : IoError := if b.zeroAtLimit then writeZero else b.error

/-- Sinks that never fail, however few bytes they take at a time and however often they interrupt a write. -/
structure Reliable (b : Behaviour) : Prop where
  limit : b.limit = none
  failingFlush : b.failingFlush = none

theorem reliable_patient : patient.Reliable := ⟨rfl, rfl⟩

theorem Reliable.holds {b : Behaviour} (h : b.Reliable) (count : Nat) : b.Holds count := by
  intro limit hlimit
  rw [h.limit] at hlimit
  cases hlimit

theorem Holds.mono {b : Behaviour} {few many : Nat} (h : b.Holds many) (hle : few ≤ many) : b.Holds few :=
  fun limit hlimit => Nat.le_trans hle (h limit hlimit)

theorem holds_iff {b : Behaviour} {limit : Nat} (h : b.limit = some limit) (count : Nat) :
    b.Holds count ↔ count ≤ limit := by
  simp [Holds, h]

/-- The flush behind `count` others is the failing one, and the sink can hold the bytes that come before it. -/
structure FailsAt (b : Behaviour) (flushes : List Nat) (count mark : Nat) : Prop where
  failing : b.failingFlush = some (count + 1)
  reached : flushes[count]? = some mark
  holds : b.Holds mark

/-- Flushes at which the sink does not fail although it can hold the bytes before them are not the failing one. -/
theorem length_le_of_not_failsAt {b : Behaviour} {front back : List Nat}
    (h : ∀ count mark, ¬ b.FailsAt (front ++ back) count mark) (hfit : ∀ mark ∈ front, b.Holds mark) (i : Nat)
    (hi : b.failingFlush = some (i + 1)) : front.length ≤ i := by
  refine Nat.le_of_not_lt ?_
  intro hin
  have hreached : (front ++ back)[i]? = some front[i] := by
    rw [List.getElem?_append_left hin, List.getElem?_eq_getElem hin]
  exact h i _ ⟨hi, hreached, hfit _ (List.getElem_mem hin)⟩

/-- How many of some bytes one write brings to a sink that holds so many. -/
def portion (b : Behaviour) (held count : Nat) : Nat :=
  let most := match b.perWrite with
    | none => count
    | some most => min (max most 1) count
  match b.limit with
  | none => most
  | some limit => min (limit - held) most

/-- A write brings some of its bytes, unless the sink is full. -/
theorem portion_cases (b : Behaviour) (held : Nat) {count : Nat} (h : 0 < count) :
    (∃ n, b.portion held count = n + 1 ∧ n + 1 ≤ count ∧ (b.Holds held → b.Holds (held + (n + 1)))) ∨
    (∃ limit, b.limit = some limit ∧ limit ≤ held ∧ b.portion held count = 0) := by
  -- the bound on one write leaves at least one byte
  obtain ⟨m, hm⟩ : ∃ m, (match b.perWrite with
      | none => count
      | some most => min (max most 1) count) = m + 1 ∧ m + 1 ≤ count := by
    cases b.perWrite with
    | none => exact ⟨count - 1, by simp only; omega⟩
    | some most => exact ⟨min (max most 1) count - 1, by simp only; omega⟩
  unfold portion
  cases hlimit : b.limit with
  | none =>
    refine .inl ⟨m, hm.1, hm.2, ?_⟩
    intro _ limit h
    rw [hlimit] at h
    cases h
  | some limit =>
    simp only [hm.1]
    by_cases hfull : limit ≤ held
    · exact .inr ⟨limit, rfl, hfull, by omega⟩
    · refine .inl ⟨min (limit - held) (m + 1) - 1, by omega, by omega, ?_⟩
      rw [holds_iff hlimit, holds_iff hlimit]
      omega

end Behaviour

/-- A sink that behaves in this way, with the bytes that it accepted and the number of them at each flush. -/
structure Has (b : Behaviour) (bytes : List UInt8) (marks : List Nat) (s : Sink) : Prop where
  behaviour : s.behaviour = b
  written : s.written.toList = bytes
  flushes : s.flushes.toList = marks

variable {b : Behaviour} {held bytes : List UInt8} {marks : List Nat} {s : Sink}

theorem has_ofBehaviour (b : Behaviour) : Has b [] [] (ofBehaviour b) := ⟨rfl, rfl, rfl⟩

theorem Has.size_written (h : Has b held marks s) : s.written.size = held.length := by
  rw [← Array.length_toList, h.written]

/-- What a write to a sink leads to. -/
inductive Wrote (b : Behaviour) (held : List UInt8) (marks : List Nat) (bytes : List UInt8) : Outcome × Sink → Prop
  | interrupted {s : Sink} (h : Has b held marks s) : Wrote b held marks bytes (.interrupted, s)
  | accepted {n : Nat} {s : Sink} (hle : n + 1 ≤ bytes.length)
      (hfit : b.Holds held.length → b.Holds (held.length + (n + 1)))
      (h : Has b (held ++ bytes.take (n + 1)) marks s) : Wrote b held marks bytes (.accepted (n + 1), s)
  | nothing {limit : Nat} {s : Sink} (hlimit : b.limit = some limit) (hfull : limit ≤ held.length)
      (hzero : b.zeroAtLimit = true) (h : Has b held marks s) : Wrote b held marks bytes (.accepted 0, s)
  | failed {limit : Nat} {s : Sink} (hlimit : b.limit = some limit) (hfull : limit ≤ held.length)
      (hzero : b.zeroAtLimit = false) (h : Has b held marks s) : Wrote b held marks bytes (.failed b.error, s)

theorem acceptable_eq_take (s : Sink) (bytes : List UInt8) :
    s.acceptable bytes = bytes.take (s.behaviour.portion s.written.size bytes.length) := by
  unfold acceptable Behaviour.portion
  cases s.behaviour.perWrite <;> cases s.behaviour.limit <;> simp [List.take_take, ← List.take_eq_take_min]

theorem Has.wrote (h : Has b held marks s) (hne : bytes ≠ []) : Wrote b held marks bytes (s.write bytes) := by
  unfold write
  split
  · exact .interrupted ⟨h.behaviour, h.written, h.flushes⟩
  · rw [acceptable_eq_take, h.behaviour, h.size_written]
    obtain ⟨n, hn, hle, hfit⟩ | ⟨limit, hlimit, hfull, hzero⟩ := b.portion_cases held.length (List.length_pos_iff.2 hne)
    · have hsome : (bytes.take (n + 1)).isEmpty = false := by simpa using hne
      have hcount : (bytes.take (n + 1)).length = n + 1 := by
        rw [List.length_take, Nat.min_eq_left hle]
      simp only [hn, hsome, Bool.false_and, Bool.false_eq_true, if_false, hcount]
      exact .accepted hle hfit ⟨rfl, by simp [h.written], h.flushes⟩
    · simp only [hzero, List.take_zero, List.isEmpty_nil, Bool.true_and, Bool.not_eq_true', List.length_nil]
      split
      · rename_i hz
        exact .failed hlimit hfull hz ⟨rfl, h.written, h.flushes⟩
      · rename_i hz
        exact .nothing hlimit hfull (by simpa using hz) ⟨rfl, by simp [h.written], h.flushes⟩

/-- What writing all bytes leads to, for a sink that holds no more than it can. -/
inductive WroteAll (b : Behaviour) (held : List UInt8) (marks : List Nat) (bytes : List UInt8) :
    Except IoError Unit × Sink → Prop
  | whole {s : Sink} (hfit : b.Holds (held.length + bytes.length)) (h : Has b (held ++ bytes) marks s) :
      WroteAll b held marks bytes (.ok (), s)
  | cut {limit : Nat} {s : Sink} (hlimit : b.limit = some limit) (hover : limit < held.length + bytes.length)
      (h : Has b (held ++ bytes.take (limit - held.length)) marks s) :
      WroteAll b held marks bytes (.error b.refusal, s)

/-- Bytes that a write brought are part of what all writes bring. -/
theorem WroteAll.cons {n : Nat} {result : Except IoError Unit × Sink} (hle : n ≤ bytes.length)
    (hfit : b.Holds (held.length + n)) (h : WroteAll b (held ++ bytes.take n) marks (bytes.drop n) result) :
    WroteAll b held marks bytes result := by
  have hcount : (held ++ bytes.take n).length = held.length + n := by
    rw [List.length_append, List.length_take, Nat.min_eq_left hle]
  cases h with
  | whole hfit' h =>
    rw [List.append_assoc, List.take_append_drop] at h
    refine .whole (hfit'.mono ?_) h
    rw [hcount, List.length_drop]
    omega
  | @cut limit s hlimit hover h =>
    have hlimit' := (Behaviour.holds_iff hlimit _).1 hfit
    rw [hcount, List.length_drop] at hover
    refine .cut hlimit (by omega) ?_
    have htake : bytes.take n ++ (bytes.drop n).take (limit - (held.length + n)) =
        bytes.take (limit - held.length) := by
      rw [← List.take_add]
      congr 1
      omega
    rwa [List.append_assoc, hcount, htake] at h

/-- A sink that is full refuses all bytes. -/
theorem WroteAll.refused {limit : Nat} (hlimit : b.limit = some limit) (hfull : limit ≤ held.length) (hne : bytes ≠ [])
    (h : Has b held marks s) : WroteAll b held marks bytes (.error b.refusal, s) := by
  have hpos : 0 < bytes.length := List.length_pos_iff.2 hne
  refine .cut hlimit (by omega) ?_
  simpa [Nat.sub_eq_zero_of_le hfull] using h

theorem Has.wroteAll (h : Has b held marks s) (hheld : b.Holds held.length) (bytes : List UInt8) :
    WroteAll b held marks bytes (s.writeAll bytes) := by
  fun_induction writeAll s bytes generalizing held with
  | case1 s => exact .whole hheld (by simpa using h)
  | case2 s bytes hne s' hwrite =>
    have hw := h.wrote hne
    rw [hwrite] at hw
    cases hw with
    | nothing hlimit hfull hzero h =>
      have hrefusal : b.refusal = writeZero := by simp [Behaviour.refusal, hzero]
      rw [← hrefusal]
      exact .refused hlimit hfull hne h
  | case3 s bytes hne n s' hwrite ih =>
    have hw := h.wrote hne
    rw [hwrite] at hw
    cases hw with
    | accepted hle hfit h =>
      refine .cons hle (hfit hheld) (ih h ?_)
      rw [List.length_append, List.length_take, Nat.min_eq_left hle]
      exact hfit hheld
  | case4 s bytes hne s' hwrite ih =>
    have hw := h.wrote hne
    rw [hwrite] at hw
    cases hw with
    | interrupted h => exact ih h hheld
  | case5 s bytes hne e s' hwrite =>
    have hw := h.wrote hne
    rw [hwrite] at hw
    cases hw with
    | failed hlimit hfull hzero h =>
      have hrefusal : b.refusal = b.error := by simp [Behaviour.refusal, hzero]
      rw [← hrefusal]
      exact .refused hlimit hfull hne h

/-- All bytes arrive that the sink can hold. -/
theorem Has.writeAll (h : Has b held marks s) (hfit : b.Holds (held.length + bytes.length)) :
    ∃ s', s.writeAll bytes = (.ok (), s') ∧ Has b (held ++ bytes) marks s' := by
  have hw := h.wroteAll (hfit.mono (Nat.le_add_right _ _)) bytes
  generalize s.writeAll bytes = result at hw
  cases hw with
  | whole _ h => exact ⟨_, rfl, h⟩
  | cut hlimit hover _ =>
    rw [Behaviour.holds_iff hlimit] at hfit
    omega

/-- A flush is noted, and fails exactly if it is the failing one. -/
theorem Has.flush (h : Has b held marks s) :
    ∃ s', s.flush = (if b.failingFlush = some (marks.length + 1) then .error b.error else .ok (), s') ∧
      Has b held (marks ++ [held.length]) s' := by
  have hcount : s.flushes.size = marks.length := by rw [← Array.length_toList, h.flushes]
  refine ⟨{ s with flushes := s.flushes.push s.written.size }, ?_, h.behaviour, h.written, ?_⟩
  · simp only [Sink.flush, h.behaviour, Array.size_push, hcount]
    split <;> rfl
  · simp [h.flushes, h.size_written]

end StreamLexer.Sink
