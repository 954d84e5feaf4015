import Mathlib.Control.Monad.Basic
import StreamLexer.Proofs.Sink.Capacity
import StreamLexer.Repl

/-! Following a transcript on a sink. A sink that does not fail takes all that the transcript writes and is flushed
where it says. One that fails does so at a single action, a flush or a write beyond its limit: the actions before
it are followed in full, and nothing is done behind it. -/
namespace StreamLexer

namespace Action

def bytes : Action → List UInt8
  | write text => text.toUTF8.toList
  | flush => []

/-- The bytes that some actions write, in order. -/
def output (actions : List Action) : List UInt8 := actions.flatMap bytes

/-- The number of bytes that are written at each flush, if there are so many before the first action. -/
def marks (before : Nat) : List Action → List Nat
  | [] => []
  | write text :: rest => marks (before + (bytes (write text)).length) rest
  | flush :: rest => before :: marks before rest

theorem output_append (front back : List Action) : output (front ++ back) = output front ++ output back := by
  simp [output]

@[simp] theorem output_write (text : String) (rest : List Action) :
    output (write text :: rest) = bytes (write text) ++ output rest := rfl

@[simp] theorem output_flush (rest : List Action) : output (flush :: rest) = output rest := rfl

theorem marks_append (before : Nat) (front back : List Action) :
    marks before (front ++ back) = marks before front ++ marks (before + (output front).length) back := by
  induction front generalizing before with
  | nil => rfl
  | cons a front ih =>
    cases a with
    | write text => simp only [List.cons_append, marks, ih, output_write, List.length_append, Nat.add_assoc]
    | flush => simp only [List.cons_append, marks, ih, output_flush]

/-- Flushes come between the first byte and the last. -/
theorem marks_bounds {before mark : Nat} {actions : List Action} (h : mark ∈ marks before actions) :
    before ≤ mark ∧ mark ≤ before + (output actions).length := by
  induction actions generalizing before with
  | nil => cases h
  | cons a rest ih =>
    cases a with
    | write text =>
      have hbounds := ih h
      simp only [output_write, List.length_append]
      omega
    | flush =>
      simp only [marks, List.mem_cons] at h
      obtain rfl | h := h
      · simp
      · exact ih h

end Action

namespace Transcript

open StreamLexer.Action (output marks)

variable {b : Sink.Behaviour} {held : List UInt8} {done : List Nat} {s : Sink} {actions : List Action}

/-- Actions that end before the limit and before the failing flush are followed in full. -/
theorem performAll_of_holds (h : s.Has b held done) (hfit : b.Holds (held.length + (output actions).length))
    (hflush : ∀ i, b.failingFlush = some (i + 1) → i < done.length ∨
      done.length + (marks held.length actions).length ≤ i) :
    ∃ s', performAll s actions = (.ok (), s') ∧
      s'.Has b (held ++ output actions) (done ++ marks held.length actions) := by
  induction actions generalizing s held done with
  | nil => exact ⟨s, rfl, by simpa [output, marks] using h⟩
  | cons a rest ih =>
    cases a with
    | write text =>
      rw [Action.output_write, List.length_append, ← Nat.add_assoc] at hfit
      obtain ⟨s₁, hwrite, h₁⟩ := h.writeAll (hfit.mono (Nat.le_add_right _ _))
      have hlen : (held ++ Action.bytes (.write text)).length = held.length + (Action.bytes (.write text)).length :=
        List.length_append
      obtain ⟨s₂, hrest, h₂⟩ := ih h₁ (by rwa [hlen]) (by rwa [hlen])
      refine ⟨s₂, ?_, ?_⟩
      · have hperform : (Action.write text).perform s = (.ok (), s₁) := hwrite
        simp only [performAll, hperform, hrest]
      · rwa [List.append_assoc, hlen] at h₂
    | flush =>
      have hpasses : b.failingFlush ≠ some (done.length + 1) := by
        intro hi
        have hlater := hflush done.length hi
        simp only [marks, List.length_cons] at hlater
        omega
      have hflush' : ∀ i, b.failingFlush = some (i + 1) → i < (done ++ [held.length]).length ∨
          (done ++ [held.length]).length + (marks held.length rest).length ≤ i := by
        intro i hi
        have hlater := hflush i hi
        simp only [marks, List.length_cons, List.length_append, List.length_nil] at hlater ⊢
        omega
      obtain ⟨s₁, hperform, h₁⟩ := h.flush
      rw [if_neg hpasses] at hperform
      obtain ⟨s₂, hrest, h₂⟩ := ih h₁ hfit hflush'
      refine ⟨s₂, ?_, ?_⟩
      · have hflushed : Action.flush.perform s = (.ok (), s₁) := hperform
        simp only [performAll, hflushed, hrest]
      · rwa [List.append_assoc] at h₂

theorem performAll_fresh (hfit : b.Holds (output actions).length)
    (hflush : ∀ i, b.failingFlush = some (i + 1) → (marks 0 actions).length ≤ i) :
    ∃ s, performAll (.ofBehaviour b) actions = (.ok (), s) ∧ s.Has b (output actions) (marks 0 actions) := by
  have hfit' : b.Holds (([] : List UInt8).length + (output actions).length) := by simpa using hfit
  refine performAll_of_holds (Sink.has_ofBehaviour b) hfit' ?_
  intro i hi
  exact .inr (by simpa using hflush i hi)

/-- What is seen of a transcript that is followed on a fresh sink: how it ends, the bytes that arrived, and the
number of them at each flush. -/
structure Seen where
  result : Except Error Unit
  bytes : List UInt8
  flushes : List Nat
  deriving DecidableEq

def seenOn (t : Transcript) (b : Sink.Behaviour) : Seen :=
  let (result, s) := t.play (.ofBehaviour b)
  ⟨result, s.written.toList, s.flushes.toList⟩

theorem seenOn_of_ok {t : Transcript} {bytes : List UInt8} {flushes : List Nat}
    (h : performAll (.ofBehaviour b) t.actions = (.ok (), s)) (hs : s.Has b bytes flushes) :
    t.seenOn b = ⟨t.result, bytes, flushes⟩ := by
  simp only [seenOn, play, h, hs.written, hs.flushes]

variable (t : Transcript)

/-- A sink that fails at none of the actions sees the whole transcript. -/
theorem seenOn_of_holds (hfit : b.Holds (output t.actions).length)
    (hflush : ∀ i mark, ¬ b.FailsAt (marks 0 t.actions) i mark) :
    t.seenOn b = ⟨t.result, output t.actions, marks 0 t.actions⟩ := by
  have hheld : ∀ mark ∈ marks 0 t.actions, b.Holds mark := by
    intro mark hmem
    have hbounds := Action.marks_bounds hmem
    exact hfit.mono (by omega)
  rw [← List.append_nil (marks 0 t.actions)] at hflush
  obtain ⟨s, hall, hs⟩ := performAll_fresh hfit (Sink.Behaviour.length_le_of_not_failsAt hflush hheld)
  exact seenOn_of_ok hall hs

theorem seenOn_of_reliable (h : b.Reliable) : t.seenOn b = ⟨t.result, output t.actions, marks 0 t.actions⟩ := by
  refine t.seenOn_of_holds (h.holds _) ?_
  rintro i mark ⟨hi, -, -⟩
  rw [h.failingFlush] at hi
  cases hi

end Transcript

end StreamLexer
