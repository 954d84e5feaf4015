import StreamLexer.Journal
import StreamLexer.Proofs.Munch.Next

/-! Runs at the front of a stream, and what there is to tell when bytes are taken off a stream. A run takes the
longest string of accepted bytes; that the stream is exhausted is told once, when its last byte is taken; a
token is told when it is answered. -/
namespace StreamLexer

namespace Munch

/-- What is told when a stream comes to its last byte. -/
def exhausts (s s' : Stream) : List Event := if s.bytes ≠ [] ∧ s'.bytes = [] then [.exhausted] else []

/-- What is told of an answer. -/
def tells : Except Error Token → List Event
  | .ok t => if t.isEof then [] else [.token t]
  | .error _ => []

/-- What a call tells. -/
def told (s : Stream) : List Event := exhausts s (next s).2 ++ tells (next s).1

/-- The longest run of accepted bytes, and the stream behind it. A failure right behind a run takes the place
of the run. -/
def span (accept : UInt8 → Bool) (s : Stream) : Except Error (List UInt8) × Stream :=
  match (if s.bytes ≠ [] ∧ s.bytes.dropWhile accept = [] then s.ending.fault? else none) with
  | some e => (.error e, ⟨[], .clean⟩)
  | none => (.ok (s.bytes.takeWhile accept), ⟨s.bytes.dropWhile accept, s.ending⟩)

@[simp] theorem span_nil (accept : UInt8 → Bool) (ending : Ending) :
    span accept ⟨[], ending⟩ = (.ok [], ⟨[], ending⟩) := by
  simp [span]

theorem span_reject {accept : UInt8 → Bool} {b : UInt8} (bs : List UInt8) (ending : Ending)
    (h : accept b = false) : span accept ⟨b :: bs, ending⟩ = (.ok [], ⟨b :: bs, ending⟩) := by
  simp [span, h]

/-- A run whose first byte is the last of the stream. -/
theorem span_single {accept : UInt8 → Bool} {b : UInt8} (ending : Ending) (h : accept b = true) :
    span accept ⟨[b], ending⟩ =
      match ending.fault? with
      | some e => (.error e, ⟨[], .clean⟩)
      | none => (.ok [b], ⟨[], .clean⟩) := by
  cases ending <;> simp [span, h, Ending.fault?]

/-- A run that may go on. -/
theorem span_cons {accept : UInt8 → Bool} {b : UInt8} {bs : List UInt8} (ending : Ending)
    (h : accept b = true) (hbs : bs ≠ []) :
    span accept ⟨b :: bs, ending⟩ =
      ((span accept ⟨bs, ending⟩).1.map (b :: ·), (span accept ⟨bs, ending⟩).2) := by
  have hdrop : (b :: bs).dropWhile accept = bs.dropWhile accept := List.dropWhile_cons_of_pos h
  have htake : (b :: bs).takeWhile accept = b :: bs.takeWhile accept := List.takeWhile_cons_of_pos h
  simp only [span, hdrop, htake, ne_eq, hbs, not_false_eq_true, reduceCtorEq, true_and]
  split <;> rfl

theorem exhausts_self (s : Stream) : exhausts s s = [] := by
  rw [exhausts, if_neg]
  rintro ⟨h, h'⟩
  exact h h'

theorem exhausts_of_ne {s s' : Stream} (h : s'.bytes ≠ []) : exhausts s s' = [] := by
  rw [exhausts, if_neg]
  rintro ⟨-, h'⟩
  exact h h'

@[simp] theorem exhausts_cons_nil (b : UInt8) (bs : List UInt8) (ending ending' : Ending) :
    exhausts ⟨b :: bs, ending⟩ ⟨[], ending'⟩ = [.exhausted] := by
  simp [exhausts]

@[simp] theorem exhausts_nil (ending : Ending) (s : Stream) : exhausts ⟨[], ending⟩ s = [] := by
  simp [exhausts]

/-- Only whether bytes are left matters to what is told. -/
theorem exhausts_cons (b c : UInt8) (bs cs : List UInt8) (ending ending' : Ending) (s : Stream) :
    exhausts ⟨b :: bs, ending⟩ s = exhausts ⟨c :: cs, ending'⟩ s := by
  simp [exhausts]

end Munch

end StreamLexer
